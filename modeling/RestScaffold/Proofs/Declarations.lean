import RestScaffold.Proofs.ImportClashes
import RestScaffold.Proofs.PathMapping

/-! # Declarations

Every generated file holds one source, which declares one class, and the path of the file says which.

* `exists_classComment_eq`: the comment of a class opens with a mark and ends in a line feed,
  whatever its text;
* `ClassKind`, `ClassKind.declaration`: the kinds of classes, and the lines that declare them;
* `interfaceLines`, `controllerLines`: the sources of the two classes of a service, line by line;
* `Artifact.exists_source_eq`: head, comment and declaration of a source before it is trimmed;
* `DeclaresClass`, `Lies`: the classes of a run, and the output file of one of them;
* `lies_of_generate`: every output file is that of a class. -/

namespace RestScaffold

namespace Text

/-! ### Whole lines -/

/-- What is left of whole lines consists of whole lines. -/
theorem EndsLine.dropWhile {cs : List Char} (h : EndsLine cs) (p : Char → Bool) :
    EndsLine (cs.dropWhile p) := by
  rcases h with rfl | h
  · exact Or.inl rfl
  · by_cases hnil : cs.dropWhile p = []
    · exact Or.inl hnil
    · obtain ⟨front, hfront⟩ := List.dropWhile_suffix p (l := cs)
      rw [← hfront, List.getLast?_append_of_ne_nil _ hnil] at h
      exact Or.inr h

end Text

namespace Target

open Contract (File Service Message Enumeration)
open Text (HasLine EndsLine Tight)

/-! ### Comments of classes -/

theorem foldl_push (page : Page) (texts : List String) :
    texts.foldl Page.push page =
      ⟨page.lines ++ texts.flatMap (indented page.depth), page.depth⟩ := by
  induction texts generalizing page with
  | nil => simp
  | cons t ts ih => simp [ih, Page.push]

/-- The lines of a documentation comment stand as they are at the left margin. -/
theorem layout_doc (comment : String) :
    layout 0 [.doc comment] = Text.joinLines ((docLines comment).flatMap (indented 0)) := by
  rw [layout, Page.run, List.foldl_cons, List.foldl_nil, Page.step, foldl_push]
  rfl

theorem exists_classComment_eq {comment : String} (h : comment ≠ "") :
    ∃ lines, classComment comment = Text.joinLines ("/**" :: lines) ++ "\n" := by
  have hopen : indented 0 "/**" = ["/**"] := by decide +kernel
  refine ⟨((Text.lines comment).map docLine ++ [" */"]).flatMap (indented 0), ?_⟩
  rw [classComment, if_neg h, layout_doc, docLines, if_neg h, List.append_assoc,
    List.singleton_append, List.flatMap_cons, hopen, List.singleton_append]

theorem endsLine_classComment (comment : String) : EndsLine (classComment comment).toList := by
  by_cases h : comment = ""
  · rw [classComment, if_pos h]
    exact Or.inl rfl
  · obtain ⟨lines, heq⟩ := exists_classComment_eq h
    rw [heq, String.toList_append]
    exact Or.inr (by rw [List.getLast?_append]; rfl)

/-! ### Interfaces and controllers -/

/-- The lines of an interface around its methods. -/
def interfaceLines (head comment name methods : String) : List String :=
  [head,
   "",
   comment ++ "public interface " ++ name ++ " \x7b",
   "",
   methods,
   "\x7d",
   ""]

theorem ServiceInterface.text_eq (i : ServiceInterface) : i.text = Text.joinLines
    (interfaceLines (header i.package i.imports) (classComment i.comment) i.name i.methods) := by
  unfold ServiceInterface.text ServiceInterface.skeleton
  rw [fill_joinLines (by simp)]
  apply congrArg
  simp [interfaceLines, ← String.toList_inj, toList_fill, fillFrom]

/-- The lines of a controller that has the service of the interface `service` in a field, around its
handlers. -/
def controllerLines (head comment name service field handlers : String) : List String :=
  [head,
   "",
   comment ++ "@RestController",
   "public class " ++ name ++ " \x7b",
   "",
   "    private final " ++ service ++ " " ++ field ++ ";",
   "",
   "    public " ++ name ++ "(" ++ service ++ " " ++ field ++ ") \x7b",
   "        this." ++ field ++ " = " ++ field ++ ";",
   "    \x7d",
   "",
   handlers,
   "\x7d",
   ""]

theorem Controller.text_eq (c : Controller) : c.text = Text.joinLines
    (controllerLines (header c.package c.imports) (classComment c.comment) c.name c.serviceName
      c.serviceVariable c.handlers) := by
  unfold Controller.text Controller.skeleton
  rw [fill_joinLines (by simp)]
  apply congrArg
  -- Each line is filled apart from the others.
  simp [controllerLines, ← String.toList_inj, toList_fill, fillFrom]

/-! ### Declarations of classes -/

/-- The kinds of generated classes. -/
inductive ClassKind where
  | bean
  | enumClass
  | serviceInterface
  | controller
deriving DecidableEq

namespace ClassKind

/-- The annotations of a class, which stand between its comment and the line that declares it. -/
def annotations : ClassKind → String
  | .controller => "@RestController\n"
  | _ => ""

/-- The word for a class. -/
def keyword : ClassKind → String
  | .enumClass => "enum"
  | .serviceInterface => "interface"
  | _ => "class"

/-- What stands between the name of a class and its brace. -/
def clause : ClassKind → String
  | .bean => " implements Serializable"
  | _ => ""

/-- The line that declares a class. -/
def declaration (kind : ClassKind) (name : String) : String :=
  "public " ++ kind.keyword ++ " " ++ name ++ kind.clause ++ " \x7b"

/-- A comment, the annotations behind it and the line that declares a class. -/
def opening (kind : ClassKind) (comment name : String) : String :=
  classComment comment ++ kind.annotations ++ kind.declaration name

theorem endsLine_annotations (kind : ClassKind) : EndsLine kind.annotations.toList := by
  cases kind
  case controller => exact Or.inr rfl
  all_goals exact Or.inl rfl

theorem exists_head?_opening_eq (kind : ClassKind) (comment name : String) :
    ∃ c, (kind.opening comment name).toList.head? = some c ∧ Text.isBlank c = false := by
  by_cases h : comment = ""
  · have hnone : kind.opening comment name = kind.annotations ++ kind.declaration name := by
      rw [opening, classComment, if_pos h, String.empty_append]
    rw [hnone]
    cases kind
    case controller => exact ⟨'@', by simp [annotations], rfl⟩
    all_goals exact ⟨'p', by simp [annotations, declaration], rfl⟩
  · obtain ⟨lines, heq⟩ := exists_classComment_eq h
    obtain ⟨rest, hrest⟩ := Text.exists_toList_joinLines_cons "/**" lines
    exact ⟨'/', by simp [opening, heq, hrest], rfl⟩

end ClassKind

namespace Artifact

/-- The kind of the class that the source declares. -/
def kind : Artifact → ClassKind
  | .bean _ => .bean
  | .enumClass _ => .enumClass
  | .serviceInterface _ => .serviceInterface
  | .controller _ => .controller

/-- The comment of the class. -/
def comment : Artifact → String
  | .bean b => b.comment
  | .enumClass e => e.comment
  | .serviceInterface i => i.comment
  | .controller c => c.comment

theorem bean_text_eq (b : Bean) : b.text = Text.joinLines [(Artifact.bean b).head, "",
    ClassKind.bean.opening b.comment b.name, b.body ++ "\x7d", ""] := by
  unfold Bean.text Bean.skeleton
  rw [fill_joinLines (by simp)]
  congr 1
  simp [← String.toList_inj, toList_fill, fillFrom, head, imports, package, ClassKind.opening,
    ClassKind.annotations, ClassKind.declaration, ClassKind.keyword, ClassKind.clause]

/-- The source of a controller before it is trimmed. The annotation has a line of its own, which is a
part of the opening. -/
theorem controller_text_eq (c : Controller) : c.text = Text.joinLines
    ((controller c).head :: "" :: ClassKind.controller.opening c.comment c.name ::
      (controllerLines (header c.package c.imports) (classComment c.comment) c.name c.serviceName
        c.serviceVariable c.handlers).drop 4) := by
  rw [c.text_eq]
  simp [← String.toList_inj, Text.joinLines, controllerLines, head, imports, package,
    ClassKind.opening, ClassKind.annotations, ClassKind.declaration, ClassKind.keyword,
    ClassKind.clause]

/-- The source, before it is trimmed, has a head, the opening of its class, and lines in which the
class is closed. -/
theorem exists_source_eq (a : Artifact) : ∃ lines line, a.text = Text.trim (Text.joinLines
    (a.head :: "" :: a.kind.opening a.comment a.name :: lines)) ∧
      line ∈ lines ∧ '}' ∈ line.toList := by
  cases a with
  | bean b =>
      exact ⟨[b.body ++ "\x7d", ""], b.body ++ "\x7d", congrArg Text.trim (bean_text_eq b),
        List.mem_cons_self, by simp⟩
  | enumClass e =>
      obtain ⟨rest, hskeleton, hrest⟩ : ∃ rest, EnumClass.skeleton =
          Text.joinLines ("<header>" :: "" :: "<comment>public enum <name> \x7b" :: rest) ∧
            "\x7d" ∈ rest := ⟨_, rfl, by simp⟩
      obtain ⟨values, hvalues⟩ : ∃ values, values = [("<header>", header e.package []),
          ("<comment>", classComment e.comment), ("<values>", e.values), ("<name>", e.name)] :=
        ⟨_, rfl⟩
      refine ⟨rest.map fun l => fill l values, fill "\x7d" values, congrArg Text.trim ?_,
        List.mem_map_of_mem hrest, by simp [toList_fill, fillFrom]⟩
      show e.text = _
      unfold EnumClass.text
      rw [hskeleton, ← hvalues, fill_joinLines (by simp [hvalues]), List.map_cons, List.map_cons,
        List.map_cons]
      congr 1
      simp [hvalues, ← String.toList_inj, toList_fill, fillFrom, head, imports, package,
        ClassKind.opening, kind, comment, name, ClassKind.annotations, ClassKind.declaration,
        ClassKind.keyword, ClassKind.clause]
  | serviceInterface i =>
      refine ⟨["", i.methods, "\x7d", ""], "\x7d", congrArg Text.trim ?_, by simp, by simp⟩
      show i.text = _
      rw [i.text_eq]
      simp [← String.toList_inj, Text.joinLines, interfaceLines, head, imports, package,
        ClassKind.opening, kind, comment, name, ClassKind.annotations, ClassKind.declaration,
        ClassKind.keyword, ClassKind.clause]
  | controller c =>
      exact ⟨_, "\x7d", congrArg Text.trim (controller_text_eq c), by simp [controllerLines],
        by simp⟩

/-- A source that was trimmed keeps the opening of its class and what follows it up to a character
that is no blank. -/
theorem text_eq_of_source {a : Artifact} {lines : List String} (htext : a.text = Text.trim
      (Text.joinLines (a.head :: "" :: a.kind.opening a.comment a.name :: lines)))
    {mid after : List Char} {d : Char} (hd : Text.isBlank d = false)
    (hlines : (Text.joinLines lines).toList = mid ++ d :: after) :
    a.text.toList = (a.head.toList ++ ['\n', '\n']).dropWhile Text.isBlank ++
      (a.kind.opening a.comment a.name).toList ++ '\n' :: mid ++
        d :: after.rdropWhile Text.isBlank := by
  obtain ⟨c, hc, hblank⟩ := a.kind.exists_head?_opening_eq a.comment a.name
  obtain ⟨cs, hopening⟩ := List.head?_eq_some_iff.mp hc
  have hne : lines ≠ [] := by
    rintro rfl
    simp [Text.joinLines] at hlines
  have hsource : (Text.joinLines
      (a.head :: "" :: a.kind.opening a.comment a.name :: lines)).toList =
        (a.head.toList ++ ['\n', '\n']) ++ (c :: (cs ++ '\n' :: mid) ++ d :: after) := by
    rw [Text.toList_joinLines_cons_cons, Text.toList_joinLines_cons_cons,
      Text.toList_joinLines_cons hne, hlines, hopening]
    simp
  rw [htext, Text.trim, String.toList_ofList, hsource, Text.trimEnds_append hblank hd, hopening]
  simp

theorem exists_text_eq_opening (a : Artifact) : ∃ before rest, EndsLine before ∧
    a.text.toList = before ++ (a.kind.opening a.comment a.name).toList ++ '\n' :: rest := by
  obtain ⟨lines, line, htext, hline, hbrace⟩ := a.exists_source_eq
  obtain ⟨mid, after, hmid⟩ := List.append_of_mem (Text.mem_joinLines hbrace hline)
  have hfront : EndsLine (a.head.toList ++ ['\n', '\n']) := Or.inr (by simp)
  have hbrace : Text.isBlank '}' = false := rfl
  refine ⟨_, mid ++ '}' :: after.rdropWhile Text.isBlank, hfront.dropWhile Text.isBlank, ?_⟩
  rw [text_eq_of_source htext hbrace hmid]
  simp

theorem exists_bean_text_eq (b : Bean) : ∃ before, EndsLine before ∧
    (Artifact.bean b).text.toList =
      before ++ (ClassKind.bean.declaration b.name ++ "\n" ++ b.body ++ "\x7d").toList := by
  have hlines : (Text.joinLines [b.body ++ "\x7d", ""]).toList = b.body.toList ++ '}' :: ['\n'] := by
    simp [Text.joinLines]
  have hsource : (bean b).text = Text.trim (Text.joinLines [(bean b).head, "",
      (bean b).kind.opening (bean b).comment (bean b).name, b.body ++ "\x7d", ""]) :=
    congrArg Text.trim (bean_text_eq b)
  have htext := text_eq_of_source hsource rfl hlines
  have hend : ['\n'].rdropWhile Text.isBlank = [] := by decide
  have hfront : EndsLine ((Artifact.bean b).head.toList ++ ['\n', '\n']) := Or.inr (by simp)
  refine ⟨_, (hfront.dropWhile Text.isBlank).append (endsLine_classComment b.comment), ?_⟩
  rw [htext, hend]
  simp [ClassKind.opening, kind, comment, name, ClassKind.annotations]

theorem exists_text_eq_packageLine {a : Artifact} (h : a.package ≠ "") :
    ∃ rest, a.text.toList = ("package " ++ a.package ++ ";").toList ++ '\n' :: rest := by
  obtain ⟨more, hhead⟩ : ∃ more, a.head = "package " ++ a.package ++ ";" ++ more ∧
      (more = "" ∨ ∃ lines, more = "\n\n" ++ lines) := by
    rw [head, header, if_neg h]
    split
    · exact ⟨"", by simp, Or.inl rfl⟩
    · exact ⟨"\n\n" ++ Text.joinLines (importLines a.package a.imports),
        by simp [← String.toList_inj], Or.inr ⟨_, rfl⟩⟩
  have hne : a.head ≠ "" := by
    rw [hhead.1, ← String.toList_inj.ne]
    simp
  obtain ⟨rest, htext⟩ := exists_text_eq hne
  rcases hhead with ⟨heq, rfl | ⟨lines, rfl⟩⟩
  · exact ⟨'\n' :: rest, by rw [htext, heq]; simp⟩
  · exact ⟨'\n' :: (lines.toList ++ '\n' :: '\n' :: rest), by rw [htext, heq]; simp⟩

end Artifact

/-! ### The classes of a run -/

/-- The classes that a run declares for its contract files: their kinds, packages, names and
comments. -/
inductive DeclaresClass (options : Options) (files : List File) :
    ClassKind → String → String → String → Prop
  | bean {file : File} {m : Message} (hfile : file ∈ files) (hm : m ∈ file.messages) :
      DeclaresClass options files .bean m.package m.name m.comment
  | enumClass {file : File} {e : Enumeration} (hfile : file ∈ files)
      (he : e ∈ file.enumerations) :
      DeclaresClass options files .enumClass e.package e.name e.comment
  | serviceInterface {file : File} {s : Service} (hfile : file ∈ files) (hs : s ∈ file.services) :
      DeclaresClass options files .serviceInterface (servicePackage options file) (serviceName s)
        s.comment
  | controller {file : File} {s : Service} (hfile : file ∈ files) (hs : s ∈ file.services) :
      DeclaresClass options files .controller (controllerPackage options file) (controllerName s)
        s.comment

theorem SourceUses.declaresClass {options : Options} {files : List File} {a : Artifact}
    {uses : List ClassName} (h : SourceUses options files a uses) :
    DeclaresClass options files a.kind a.package a.name a.comment := by
  cases h with
  | bean hfile hm => exact .bean hfile hm
  | enumClass hfile he => exact .enumClass hfile he
  | serviceInterface hfile hs hi =>
      obtain ⟨operations, -, rfl⟩ := ServiceInterface.ofService_eq_ok_iff.mp hi
      exact .serviceInterface hfile hs
  | controller hfile hs hc =>
      obtain ⟨endpoints, -, rfl⟩ := Controller.ofService_eq_ok_iff.mp hc
      exact .controller hfile hs

/-- The output file of a class: it lies in the directory of the package, under the name of the
class, and holds the banner, an empty line and a text that declares the class. -/
structure Lies (banner : String) (kind : ClassKind) (package name comment text : String)
    (o : OutputFile) : Prop where
  path : o.name = (if package = "" then "" else
    String.ofList (package.toList.map fun c => if c = '.' then '/' else c) ++ "/") ++ name ++
      ".java"
  content : o.content = banner ++ "\n\n" ++ text
  tight : Tight text
  /-- A text of a named package starts with the line for it. -/
  package : package ≠ "" →
    ∃ rest, text.toList = ("package " ++ package ++ ";").toList ++ '\n' :: rest
  declares : HasLine text (kind.declaration name)
  /-- The line that declares the class follows its comment, which stands as it was laid out. -/
  opens : ∃ before rest, EndsLine before ∧ text.toList = before ++
    (classComment comment ++ kind.annotations ++ kind.declaration name).toList ++ '\n' :: rest

theorem Artifact.lies (banner : String) (a : Artifact) :
    Lies banner a.kind a.package a.name a.comment a.text
      ⟨a.path, banner ++ "\n\n" ++ a.text⟩ where
  path := by
    show sourcePath a.package a.name = _
    rw [sourcePath, Naming.packagePath]
    split
    · rw [String.empty_append]
    · rfl
  content := rfl
  tight := Text.tight_trim _
  package := exists_text_eq_packageLine
  declares := by
    obtain ⟨before, rest, hbefore, htext⟩ := a.exists_text_eq_opening
    refine ⟨before ++ (classComment a.comment ++ a.kind.annotations).toList, rest, ?_, ?_⟩
    · rw [String.toList_append]
      exact hbefore.append ((endsLine_classComment _).append a.kind.endsLine_annotations)
    · rw [htext, ClassKind.opening]
      simp
  opens := a.exists_text_eq_opening

end Target

open Target

/-- **Every output file lies where its class is declared**, whatever the comments of the contract
have in them. -/
theorem lies_of_generate {request : Descriptor.Request} {annotations : Annotated.Request}
    {outputs : List OutputFile} (h : (generate request annotations).result = .ok outputs) :
    ∃ options files, Options.parse request.parameter = .ok options ∧
      (Contract.contractFiles options request annotations).result = .ok files ∧
      ∀ o ∈ outputs, ∃ kind package name comment text,
        DeclaresClass options files kind package name comment ∧
        Lies (banner request.compiler) kind package name comment text o := by
  obtain ⟨options, files, gss, ho, hf, hgss, rfl, -⟩ := generate_eq_ok_iff.mp h
  refine ⟨options, files, ho, hf, fun o hmem => ?_⟩
  obtain ⟨g, hg, rfl⟩ := List.mem_map.mp hmem
  obtain ⟨gs, hgs, hgmem⟩ := List.mem_flatten.mp hg
  obtain ⟨file, hfile, hok⟩ := exists_left_of_forall₂ hgss gs hgs
  obtain ⟨uses, huses⟩ := exists_sourceUses hfile hok hgmem
  exact ⟨_, _, _, _, _, huses.declaresClass, g.artifact.lies _⟩

/-- A file of the unnamed package and one of a package with a dot. Comments have placeholders in
them. -/
def inkRequest : Descriptor.Request where
  listed := ["ink.proto", "pen.proto"]
  files := [
    { name? := some "ink.proto"
      messages := [{ name := "Ink" }]
      enumerations := [{ name := "Hue", values := ["RED"] }]
      locations := [{ path := [4, 0], leadingComment := " Before <name>, <header> and <body>. " },
        { path := [5, 0], leadingComment := "<values>\n<comment>" }] },
    { name? := some "pen.proto"
      package := "desk.top"
      messages := [{ name := "Pen" }]
      services := [{ name := "Pens",
                     methods := [{ name := "Fill", input := ".Ink", output := ".desk.top.Pen" }] }]
      locations := [{ path := [6, 0], leadingComment := "<handlers> */ public class Pens" }] }]

theorem lies_inkRequest : ∃ outputs options files,
    (generate inkRequest {}).result = .ok outputs ∧ outputs.length = 5 ∧
    Options.parse inkRequest.parameter = .ok options ∧
    (Contract.contractFiles options inkRequest {}).result = .ok files ∧
    ∀ o ∈ outputs, ∃ kind package name comment text,
      DeclaresClass options files kind package name comment ∧
      Lies (banner inkRequest.compiler) kind package name comment text o := by
  have hlength : (generate inkRequest {}).result.toOption.map List.length = some 5 := by
    decide +kernel
  obtain ⟨outputs, h⟩ : ∃ outputs, (generate inkRequest {}).result = .ok outputs :=
    exists_ok_of_isOk (by decide +kernel)
  obtain ⟨options, files, ho, hf, hlies⟩ := lies_of_generate h
  rw [h] at hlength
  exact ⟨outputs, options, files, h, Option.some.inj hlength, ho, hf, hlies⟩

end RestScaffold
