import RestScaffold.Proofs.BeanLines
import RestScaffold.Proofs.References

/-! # Layout of beans

A bean is a row of blocks with one empty line between each two: what stands at its head, the line
that declares it with the comment in front, and its members.

* `memberTexts`, `memberBlocks`: the members by the fields and choices of the message, as texts and
  line by line;
* `NamesUnbroken`: a message whose names and packages have no line feed;
* `linesOf_memberTexts`, `splitAt_head`: the members are the blocks, and the head is of blocks too;
* `LaidOut`, `laidOut_ofMessage`: the layout of the bean of a message. -/

namespace RestScaffold.Target

open Naming (memberName typeName)
open Text (Unbroken unbroken_append Spaced splitAt upper upperFirst)

/-! ### Blocks -/

/-- The members of the bean of a message: a private field for each field, an enum and a getter of the
case for each choice, and a getter and a setter for each field. -/
def memberTexts (m : Contract.Message) : List (List (Nat × String)) :=
  m.fields.map (fun f =>
    fieldBlock f.comment f.required (JavaType.ofField f).text (memberName f.name)) ++
  m.choices.flatMap (fun c =>
    [enumBlock ("Oneof" ++ typeName c.name) (c.fields.map fun f => upper f.name),
     caseBlock ("Oneof" ++ typeName c.name) ("get" ++ upperFirst (memberName c.name) ++ "Case")
       (c.fields.map fun f => (memberName f.name, upper f.name))]) ++
  m.fields.flatMap fun f =>
    [getterBlock (JavaType.ofField f).text ("get" ++ upperFirst (memberName f.name))
       (memberName f.name),
     setterBlock (JavaType.ofField f).text ("set" ++ upperFirst (memberName f.name))
       (memberName f.name)]

/-- The lines of the members, where each text is one. -/
def memberBlocks (m : Contract.Message) : List (List String) :=
  (memberTexts m).map fun block => block.map fun t => indentation t.1 ++ t.2

theorem blocks_ofMessage (m : Contract.Message) :
    (Bean.ofMessage m).blocks = memberTexts m := by
  simp [Bean.blocks, Bean.ofMessage, memberTexts, Property.ofField, Property.getter,
    Property.setter, CaseEnum.ofChoice, CaseEnum.cases, CaseEnum.getter, Function.comp_def,
    List.flatMap_map]

/-! ### Names without line feeds -/

section

variable {f : Contract.Field}

theorem unbroken_text_ofKind {kind : Contract.Kind}
    (h : ∀ t ∈ (JavaType.ofKind kind).refs, Unbroken t.name) :
    Unbroken (JavaType.ofKind kind).text := by
  cases kind with
  | scalar s => cases s <;> decide
  | message t => exact h t (List.mem_singleton_self t)
  | enumeration t => exact h t (List.mem_singleton_self t)
  | unknown number =>
      have hnumber := Text.unbroken_toString number.toInt
      exact hnumber.between (by decide) (by decide)

/-- A type is written with the names of the classes that it mentions. -/
theorem unbroken_text_ofField (h : ∀ t ∈ (JavaType.ofField f).refs, Unbroken t.name) :
    Unbroken (JavaType.ofField f).text := by
  unfold JavaType.ofField at h ⊢
  split at h
  · exact unbroken_text_ofKind h
  · have helement := unbroken_text_ofKind h
    exact helement.between (by decide) (by decide)
  · obtain ⟨hkey, hvalue⟩ := List.forall_mem_append.mp h
    have hk := unbroken_text_ofKind hkey
    have hv := unbroken_text_ofKind hvalue
    simp only [JavaType.text, unbroken_append]
    exact ⟨⟨⟨⟨by decide, hk⟩, by decide⟩, hv⟩, by decide⟩

end

section

variable {type name getter setter enum : String}

theorem oneLined_fieldBlock (htype : Unbroken type) (hname : Unbroken name) (comment : String)
    (required : Bool) : OneLined (fieldBlock comment required type name) := by
  have hline : Unbroken ("private " ++ type ++ " " ++ name ++ ";") := by
    simp only [unbroken_append]
    exact ⟨⟨⟨⟨by decide, htype⟩, by decide⟩, hname⟩, by decide⟩
  have hmark : ∀ l ∈ (if required then ["@NotNull"] else []), Unbroken l ∧ l ≠ "" := by
    cases required <;> decide
  refine List.forall_mem_map.mpr (List.forall_mem_append.mpr ⟨List.forall_mem_append.mpr
    ⟨fun l => unbroken_of_mem_docLines, hmark⟩, ?_⟩)
  simpa using hline

theorem oneLined_enumBlock (hname : Unbroken name) {constants : List String}
    (h : ∀ c ∈ constants, Unbroken c) : OneLined (enumBlock name constants) := by
  have hsignature : Unbroken ("public enum " ++ name ++ " \x7b") :=
    hname.between (by decide) (by decide)
  have hconstants : ∀ c ∈ constants, Unbroken (c ++ ",") :=
    fun c hc => unbroken_append.mpr ⟨h c hc, by decide⟩
  refine List.forall_mem_append.mpr ⟨List.forall_mem_append.mpr ⟨by simpa using hsignature, ?_⟩, ?_⟩
  · simpa using hconstants
  · decide

theorem oneLined_caseBlock (henum : Unbroken enum) (hgetter : Unbroken getter)
    {tests : List (String × String)} (h : ∀ t ∈ tests, Unbroken t.1 ∧ Unbroken t.2) :
    OneLined (caseBlock enum getter tests) := by
  have hsignature : Unbroken ("public " ++ enum ++ " " ++ getter ++ "() \x7b") := by
    simp only [unbroken_append]
    exact ⟨⟨⟨⟨by decide, henum⟩, by decide⟩, hgetter⟩, by decide⟩
  have hlast : Unbroken ("return " ++ enum ++ ".UNSPECIFIED;") :=
    henum.between (by decide) (by decide)
  have hbrace : Unbroken "\x7d" := by decide
  refine List.forall_mem_append.mpr ⟨List.forall_mem_append.mpr ⟨by simpa using hsignature, ?_⟩,
    by simpa using ⟨hlast, hbrace⟩⟩
  intro line hline
  obtain ⟨t, ht, hmem⟩ := List.mem_flatMap.mp hline
  obtain ⟨hfield, hconstant⟩ := h t ht
  have htest : Unbroken ("if (this." ++ t.1 ++ " != null) \x7b") :=
    hfield.between (by decide) (by decide)
  have hreturn : Unbroken ("return " ++ enum ++ "." ++ t.2 ++ ";") := by
    simp only [unbroken_append]
    exact ⟨⟨⟨⟨by decide, henum⟩, by decide⟩, hconstant⟩, by decide⟩
  simp only [List.mem_cons, List.not_mem_nil, or_false] at hmem
  rcases hmem with rfl | rfl | rfl
  · exact ⟨htest, by simp⟩
  · exact ⟨hreturn, by simp⟩
  · exact ⟨hbrace, by simp⟩

theorem oneLined_getterBlock (htype : Unbroken type) (hgetter : Unbroken getter)
    (hname : Unbroken name) : OneLined (getterBlock type getter name) := by
  have hsignature : Unbroken ("public " ++ type ++ " " ++ getter ++ "() \x7b") := by
    simp only [unbroken_append]
    exact ⟨⟨⟨⟨by decide, htype⟩, by decide⟩, hgetter⟩, by decide⟩
  have hreturn : Unbroken ("return this." ++ name ++ ";") := hname.between (by decide) (by decide)
  have hbrace : Unbroken "\x7d" := by decide
  simpa [OneLined, getterBlock] using ⟨hsignature, hreturn, hbrace⟩

theorem oneLined_setterBlock (htype : Unbroken type) (hsetter : Unbroken setter)
    (hname : Unbroken name) : OneLined (setterBlock type setter name) := by
  have hsignature : Unbroken ("public void " ++ setter ++ "(" ++ type ++ " " ++ name ++ ") \x7b") := by
    simp only [unbroken_append]
    exact ⟨⟨⟨⟨⟨⟨by decide, hsetter⟩, by decide⟩, htype⟩, by decide⟩, hname⟩, by decide⟩
  have hassign : Unbroken ("this." ++ name ++ " = " ++ name ++ ";") := by
    simp only [unbroken_append]
    exact ⟨⟨⟨⟨by decide, hname⟩, by decide⟩, hname⟩, by decide⟩
  have hbrace : Unbroken "\x7d" := by decide
  simpa [OneLined, setterBlock] using ⟨hsignature, hassign, hbrace⟩

end

/-! ### The layout -/

/-- No line feed is in the names and packages that the bean of a message is made of: its own, those
of the types of its fields, and the names of the fields that its choices are between. -/
structure NamesUnbroken (m : Contract.Message) : Prop where
  name : Unbroken m.name
  package : Unbroken m.package
  types : ∀ f ∈ m.fields, ∀ t ∈ (JavaType.ofField f).refs, Unbroken t.name ∧ Unbroken t.package
  cases : ∀ c ∈ m.choices, ∀ f ∈ c.fields, Unbroken f.name

section

variable {m : Contract.Message}

theorem oneLined_of_mem_memberTexts (h : NamesUnbroken m) {block : List (Nat × String)}
    (hblock : block ∈ memberTexts m) : OneLined block := by
  have hname : ∀ f : Contract.Field, Unbroken (memberName f.name) :=
    fun f => unbroken_memberName f.name
  have hproperty : ∀ f : Contract.Field, Unbroken (upperFirst (memberName f.name)) :=
    fun f => Text.unbroken_upperFirst (hname f)
  have htype : ∀ f ∈ m.fields, Unbroken (JavaType.ofField f).text :=
    fun f hf => unbroken_text_ofField fun t ht => (h.types f hf t ht).1
  rcases List.mem_append.mp hblock with hblock | hblock
  · rcases List.mem_append.mp hblock with hblock | hblock
    · obtain ⟨f, hf, rfl⟩ := List.mem_map.mp hblock
      exact oneLined_fieldBlock (htype f hf) (hname f) _ _
    · obtain ⟨c, hc, hblock⟩ := List.mem_flatMap.mp hblock
      rcases List.mem_pair.mp hblock with rfl | rfl
      · refine oneLined_enumBlock (unbroken_enumName c) (List.forall_mem_map.mpr fun f hf => ?_)
        exact Text.unbroken_upper (h.cases c hc f hf)
      · refine oneLined_caseBlock (unbroken_enumName c) (unbroken_caseGetter c)
          (List.forall_mem_map.mpr fun f hf => ?_)
        exact ⟨hname f, Text.unbroken_upper (h.cases c hc f hf)⟩
  · obtain ⟨f, hf, hblock⟩ := List.mem_flatMap.mp hblock
    rcases List.mem_pair.mp hblock with rfl | rfl
    · have hgetter : Unbroken ("get" ++ upperFirst (memberName f.name)) :=
        unbroken_append.mpr ⟨by decide, hproperty f⟩
      exact oneLined_getterBlock (htype f hf) hgetter (hname f)
    · have hsetter : Unbroken ("set" ++ upperFirst (memberName f.name)) :=
        unbroken_append.mpr ⟨by decide, hproperty f⟩
      exact oneLined_setterBlock (htype f hf) hsetter (hname f)

theorem linesOf_memberTexts (h : NamesUnbroken m) :
    (memberTexts m).map linesOf = memberBlocks m :=
  List.map_congr_left fun _ hblock => (oneLined_of_mem_memberTexts h hblock).linesOf_eq

theorem ne_nil_of_mem_memberTexts {block : List (Nat × String)} (h : block ∈ memberTexts m) :
    block ≠ [] := by
  rcases List.mem_append.mp h with h | h
  · rcases List.mem_append.mp h with h | h
    · obtain ⟨f, -, rfl⟩ := List.mem_map.mp h
      simp [fieldBlock]
    · obtain ⟨c, -, h⟩ := List.mem_flatMap.mp h
      rcases List.mem_pair.mp h with rfl | rfl
      · simp [enumBlock]
      · simp [caseBlock]
  · obtain ⟨f, -, h⟩ := List.mem_flatMap.mp h
    rcases List.mem_pair.mp h with rfl | rfl
    · simp [getterBlock]
    · simp [setterBlock]

theorem not_mem_of_mem_memberBlocks (h : NamesUnbroken m) {block : List String}
    (hblock : block ∈ memberBlocks m) : block ≠ [] ∧ "" ∉ block := by
  obtain ⟨texts, htexts, rfl⟩ := List.mem_map.mp hblock
  refine ⟨mt List.map_eq_nil_iff.mp (ne_nil_of_mem_memberTexts htexts), fun hmem => ?_⟩
  obtain ⟨t, ht, hempty⟩ := List.mem_map.mp hmem
  have hne := (oneLined_of_mem_memberTexts h htexts t ht).2
  simp [hne] at hempty

/-- The blocks at the head of a source: the package line and the import lines. -/
def headBlocks (package : String) (imports : List String) : List (List String) :=
  (if package = "" then [] else [["package " ++ package ++ ";"]]) ++
    if importLines package imports = [] then [] else [importLines package imports]

theorem header_eq_headBlocks (package : String) (imports : List String) :
    header package imports =
      "\n\n".intercalate ((headBlocks package imports).map Text.joinLines) := by
  simp only [header, headBlocks]
  split <;> split <;> simp [Text.joinLines]

theorem headBlocks_bean_ne_nil (b : Bean) : headBlocks b.package b.allImports ≠ [] := by
  by_cases h : b.package = ""
  · simp [headBlocks, importLines_bean_ne_nil h]
  · simp [headBlocks, h]

theorem mem_imports {package path : String} : ∀ {type : JavaType}, path ∈ type.imports package →
    path ∈ ["com.google.protobuf.ByteString", "java.util.List", "java.util.Map"] ∨
      ∃ t ∈ type.refs, path = t.importPath
  | .byteString, h => by
      rw [List.mem_singleton.mp h]
      simp
  | .declared t, h => by
      rw [JavaType.imports] at h
      split at h
      · exact absurd h List.not_mem_nil
      · exact Or.inr ⟨t, List.mem_singleton_self t, List.mem_singleton.mp h⟩
  | .list element, h => by
      rcases List.mem_cons.mp h with rfl | h
      · simp
      · have helement := mem_imports h
        exact helement
  | .map key value, h => by
      rcases List.mem_cons.mp h with rfl | h
      · simp
      · rcases List.mem_append.mp h with h | h
        · refine (mem_imports h).imp_right fun hmentioned => ?_
          exact hmentioned.imp fun t ht => ⟨List.mem_append_left _ ht.1, ht.2⟩
        · refine (mem_imports h).imp_right fun hmentioned => ?_
          exact hmentioned.imp fun t ht => ⟨List.mem_append_right _ ht.1, ht.2⟩

theorem unbroken_of_mem_allImports (h : NamesUnbroken m) {path : String}
    (hpath : path ∈ (Bean.ofMessage m).allImports) : Unbroken path := by
  rcases List.mem_append.mp hpath with hpath | hpath
  · rcases List.mem_append.mp hpath with hpath | hpath
    · obtain rfl := List.mem_singleton.mp hpath
      decide
    · split at hpath
      · obtain rfl := List.mem_singleton.mp hpath
        decide
      · exact absurd hpath List.not_mem_nil
  · obtain ⟨f, hf, himport⟩ := List.mem_flatMap.mp (List.mem_eraseDups.mp hpath)
    rcases mem_imports himport with hlibrary | ⟨t, ht, rfl⟩
    · have hall : ∀ p ∈ ["com.google.protobuf.ByteString", "java.util.List", "java.util.Map"],
          Unbroken p := by decide
      exact hall path hlibrary
    · obtain ⟨hname, hpackage⟩ := h.types f hf t ht
      exact hpackage.qualify hname

theorem unbroken_headBlocks (h : NamesUnbroken m) {block : List String}
    (hblock : block ∈ headBlocks m.package (Bean.ofMessage m).allImports) :
    block ≠ [] ∧ ∀ line ∈ block, Unbroken line ∧ line ≠ "" := by
  unfold headBlocks at hblock
  rcases List.mem_append.mp hblock with hblock | hblock
  · split at hblock
    · exact absurd hblock List.not_mem_nil
    · obtain rfl := List.mem_singleton.mp hblock
      have hline : Unbroken ("package " ++ m.package ++ ";") :=
        h.package.between (by decide) (by decide)
      simpa using hline
  · split at hblock
    · exact absurd hblock List.not_mem_nil
    · rename_i hne
      obtain rfl := List.mem_singleton.mp hblock
      refine ⟨hne, fun line hline => ?_⟩
      rw [importLines_eq] at hline
      obtain ⟨path, hpath, rfl⟩ := List.mem_map.mp hline
      have hunbroken := unbroken_of_mem_allImports h (mem_importedPaths.mp hpath).1
      exact ⟨hunbroken.between (by decide) (by decide),
        by simp [importLine]⟩

/-- The head of the bean has its blocks, each behind an empty line. -/
theorem splitAt_head (h : NamesUnbroken m) :
    "" :: splitAt '\n' (Artifact.bean (.ofMessage m)).head =
      (headBlocks m.package (Bean.ofMessage m).allImports).flatMap ([""] ++ ·) := by
  have hne : (headBlocks m.package (Bean.ofMessage m).allImports).map Text.joinLines ≠ [] :=
    mt List.map_eq_nil_iff.mp (headBlocks_bean_ne_nil (.ofMessage m))
  have hhead : (Artifact.bean (.ofMessage m)).head = "\n\n".intercalate
      ((headBlocks m.package (Bean.ofMessage m).allImports).map Text.joinLines) :=
    header_eq_headBlocks _ _
  rw [hhead, Text.cons_splitAt_intercalate hne, List.flatMap_map]
  refine List.flatMap_congr fun block hblock => congrArg _ ?_
  obtain ⟨hnonempty, hlines⟩ := unbroken_headBlocks h hblock
  exact Text.splitAt_joinLines_of_unbroken hnonempty fun line hline => (hlines line hline).1

theorem unbroken_declaration (h : NamesUnbroken m) :
    Unbroken (ClassKind.bean.declaration m.name) := by
  simp only [ClassKind.declaration, unbroken_append]
  exact ⟨⟨⟨⟨⟨by decide, by decide⟩, by decide⟩, h.name⟩, by decide⟩, by decide⟩

/-- The lines of the bean up to its last brace. -/
theorem splitAt_bean_text_eq (h : NamesUnbroken m) :
    splitAt '\n' (Artifact.bean (.ofMessage m)).text =
      splitAt '\n' (Artifact.bean (.ofMessage m)).head ++ "" :: (docLines m.comment ++
        ClassKind.bean.declaration m.name :: (memberBlocks m).flatMap ([""] ++ ·) ++
          ["\x7d"]) := by
  have hmembers : (Bean.ofMessage m).blocks.flatMap (fun block => "" :: linesOf block) =
      (memberBlocks m).flatMap ([""] ++ ·) := by
    rw [← linesOf_memberTexts h, blocks_ofMessage, List.flatMap_map]
    rfl
  have hdeclaration : splitAt '\n' (ClassKind.bean.declaration (Bean.ofMessage m).name) =
      [ClassKind.bean.declaration m.name] :=
    (unbroken_declaration h).splitAt
  rw [splitAt_bean_text, hmembers, hdeclaration]
  simp [Bean.ofMessage]

/-- The blocks of the whole source: those at its head, the comment with the declaration, and those
of the members. -/
def sourceBlocks (m : Contract.Message) : List (List String) :=
  headBlocks m.package (Bean.ofMessage m).allImports ++
    [docLines m.comment ++ [ClassKind.bean.declaration m.name]] ++ memberBlocks m

theorem splitAt_source (h : NamesUnbroken m) : "" :: splitAt '\n' (Bean.ofMessage m).text =
    (sourceBlocks m).flatMap ([""] ++ ·) ++ ["\x7d", ""] := by
  rw [sourceBlocks, List.flatMap_append, List.flatMap_append, ← splitAt_head h,
    splitAt_bean_source, splitAt_bean_text_eq h]
  simp

theorem not_mem_of_mem_sourceBlocks (h : NamesUnbroken m) :
    ∀ block ∈ sourceBlocks m, block ≠ [] ∧ "" ∉ block := by
  have hopening : ∀ line ∈ docLines m.comment ++ [ClassKind.bean.declaration m.name],
      line ≠ "" := by
    rw [List.forall_mem_append, List.forall_mem_singleton]
    exact ⟨fun line hline => (unbroken_of_mem_docLines hline).2, by simp [ClassKind.declaration]⟩
  rw [sourceBlocks, List.forall_mem_append, List.forall_mem_append, List.forall_mem_singleton]
  refine ⟨⟨fun block hblock => ?_, by simp, fun hmem => hopening _ hmem rfl⟩,
    fun block hblock => not_mem_of_mem_memberBlocks h hblock⟩
  obtain ⟨hne, hlines⟩ := unbroken_headBlocks h hblock
  exact ⟨hne, fun hmem => (hlines _ hmem).2 rfl⟩

theorem spaced_source (h : NamesUnbroken m) : Spaced (splitAt '\n' (Bean.ofMessage m).text) := by
  have hend : Spaced ["\x7d", ""] := List.isChain_pair.mpr (Or.inl (by decide))
  have hbrace : ∀ l ∈ ["\x7d", ""].head?, l ≠ "" := by simp
  have hspaced : Spaced ((sourceBlocks m).flatMap ([""] ++ ·) ++ ["\x7d", ""]) :=
    (Text.spaced_flatMap (not_mem_of_mem_sourceBlocks h)).append hend
      fun _ _ l hl => Or.inr (hbrace l hl)
  rw [← splitAt_source h] at hspaced
  exact hspaced.of_cons

/-- The rendered bean of a message as a row of blocks. -/
structure LaidOut (m : Contract.Message) : Prop where
  /-- The source ends in a line feed, which is trimmed when it is written. -/
  text : (Bean.ofMessage m).text = (Artifact.bean (.ofMessage m)).text ++ "\n"
  /-- Behind the line with the opening brace stand the members, and behind these the closing brace.
  What stands between the braces starts with an empty line; cut at its empty lines it has the blocks
  of the members. -/
  lines : ∃ inner, splitAt '\n' (Artifact.bean (.ofMessage m)).text =
    splitAt '\n' (Artifact.bean (.ofMessage m)).head ++ "" :: (docLines m.comment ++
      ClassKind.bean.declaration m.name :: inner ++ ["\x7d"]) ∧
    inner.splitOn "" = [] :: memberBlocks m
  blocks : ∀ block ∈ memberBlocks m, block ≠ []
  spaced : Spaced (splitAt '\n' (Bean.ofMessage m).text)

/-- **Layout of a bean.** Between its braces stand a block for each private field, two for each
choice and two more for each field, in this order and with exactly one empty line in front of each,
whatever the comments have in them. No two empty lines stand next to each other. -/
theorem laidOut_ofMessage (h : NamesUnbroken m) : LaidOut m where
  text := bean_text_eq_append _
  lines := ⟨_, splitAt_bean_text_eq h,
    Text.splitOn_flatMap fun _ hblock => (not_mem_of_mem_memberBlocks h hblock).2⟩
  blocks := fun _ hblock => (not_mem_of_mem_memberBlocks h hblock).1
  spaced := spaced_source h

end

/-- A message with and without comments, with a required field and with two choices. The comments
have empty lines and a mark that would close them. -/
def parcelMessage : Contract.Message where
  name := "Parcel"
  fullName := "post.Parcel"
  package := "post.dto"
  comment := "A parcel.\n\n\n*/ <body> \x7d"
  fields :=
    [{ name := "weight", kind := .scalar .int32, required := true, comment := "In grams.\n\n" },
     { name := "to_box", kind := .message ⟨"Box", "store.Box", "store.dto"⟩ },
     { name := "to_street", kind := .scalar .string, comment := "\r\n\n" }]
  choices := [⟨"target",
    [{ name := "to_box", kind := .message ⟨"Box", "store.Box", "store.dto"⟩ },
     { name := "to_street", kind := .scalar .string, comment := "\r\n\n" }]⟩]

theorem laidOut_parcelMessage : NamesUnbroken parcelMessage ∧ LaidOut parcelMessage ∧
    (memberBlocks parcelMessage).length = 11 := by
  have h : NamesUnbroken parcelMessage :=
    ⟨by decide, by decide, by decide +kernel, by decide +kernel⟩
  exact ⟨h, laidOut_ofMessage h, by decide +kernel⟩

end RestScaffold.Target
