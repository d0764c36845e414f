import Mathlib.Data.List.DropRight
import Mathlib.Data.List.Find
import RestScaffold.Proofs.ClassNames
import RestScaffold.Target.Artifact

/-! # Sources

What stands at the head of a generated source.

* `HasLine`: a text has a line;
* `exists_header_append_eq`: the import lines are lines of the head of a source;
* `fill_joinLines`: a skeleton is filled line by line;
* `exists_fill_eq`, `trimEnds_append`: filling a skeleton and trimming it keep the head;
* `Artifact.exists_text_eq`, `Artifact.hasLine_text`: every source starts with its head, and so has
  a line for each path that it imports. -/

namespace RestScaffold

/-! ### Lines of a text -/

namespace Text

/-- The characters end no line, or they end in the end of one. -/
def EndsLine (cs : List Char) : Prop :=
  cs = [] ∨ cs.getLast? = some '\n'

/-- The text has the line, ended by a line feed. -/
def HasLine (text line : String) : Prop :=
  ∃ before after, EndsLine before ∧ text.toList = before ++ line.toList ++ '\n' :: after

theorem EndsLine.append {cs ds : List Char} (hc : EndsLine cs) (hd : EndsLine ds) :
    EndsLine (cs ++ ds) := by
  rcases hd with rfl | hd
  · rwa [List.append_nil]
  · refine Or.inr ?_
    rw [List.getLast?_append, hd]
    rfl

theorem HasLine.append_left {text line : String} (h : HasLine text line) {front : String}
    (hfront : EndsLine front.toList) : HasLine (front ++ text) line := by
  obtain ⟨before, after, hbefore, heq⟩ := h
  refine ⟨front.toList ++ before, after, hfront.append hbefore, ?_⟩
  rw [String.toList_append, heq]
  simp

theorem endsLine_flatMap (ls : List String) :
    EndsLine (ls.flatMap fun l => l.toList ++ ['\n']) := by
  induction ls with
  | nil => exact Or.inl rfl
  | cons l ls ih =>
      rw [List.flatMap_cons]
      refine EndsLine.append (Or.inr ?_) ih
      simp

theorem toList_joinLines_append (ls : List String) (h : ls ≠ []) :
    (joinLines ls).toList ++ ['\n'] = ls.flatMap fun l => l.toList ++ ['\n'] := by
  induction ls with
  | nil => exact absurd rfl h
  | cons l ls ih =>
      cases ls with
      | nil => simp [joinLines]
      | cons l' ls =>
          rw [List.flatMap_cons, ← ih (by simp)]
          simp [joinLines, String.toList_intercalate]

/-- The given lines are lines of the text, whatever follows the line feed behind the last. -/
theorem exists_joinLines_eq {ls : List String} {line : String} (h : line ∈ ls) (rest : List Char) :
    ∃ before after, EndsLine before ∧
      (joinLines ls).toList ++ '\n' :: rest = before ++ line.toList ++ '\n' :: after := by
  obtain ⟨as, bs, rfl⟩ := List.append_of_mem h
  refine ⟨as.flatMap fun l => l.toList ++ ['\n'],
    (bs.flatMap fun l => l.toList ++ ['\n']) ++ rest, endsLine_flatMap as, ?_⟩
  calc (joinLines (as ++ line :: bs)).toList ++ '\n' :: rest
      = ((joinLines (as ++ line :: bs)).toList ++ ['\n']) ++ rest := by simp
    _ = ((as ++ line :: bs).flatMap fun l => l.toList ++ ['\n']) ++ rest := by
        rw [toList_joinLines_append _ (by simp)]
    _ = _ := by simp

theorem exists_toList_joinLines_cons (l : String) (ls : List String) :
    ∃ rest, (joinLines (l :: ls)).toList = l.toList ++ rest := by
  cases ls with
  | nil => exact ⟨[], by simp [joinLines]⟩
  | cons l' ls => exact ⟨'\n' :: (joinLines (l' :: ls)).toList, by simp [joinLines]⟩

theorem toList_joinLines_cons {ls : List String} (h : ls ≠ []) (l : String) :
    (joinLines (l :: ls)).toList = l.toList ++ '\n' :: (joinLines ls).toList := by
  cases ls with
  | nil => exact absurd rfl h
  | cons l' ls => simp [joinLines]

theorem toList_joinLines_cons_cons (l l' : String) (ls : List String) :
    (joinLines (l :: l' :: ls)).toList = l.toList ++ '\n' :: (joinLines (l' :: ls)).toList :=
  toList_joinLines_cons (List.cons_ne_nil l' ls) l

theorem mem_joinLines {l : String} {c : Char} (hc : c ∈ l.toList) {ls : List String}
    (hl : l ∈ ls) : c ∈ (joinLines ls).toList := by
  induction ls with
  | nil => exact absurd hl List.not_mem_nil
  | cons l' ls ih =>
      by_cases hnil : ls = []
      · subst hnil
        obtain rfl := List.mem_singleton.mp hl
        simpa [joinLines] using hc
      · rw [toList_joinLines_cons hnil, List.mem_append]
        rcases List.mem_cons.mp hl with rfl | hl
        · exact Or.inl hc
        · exact Or.inr (List.mem_cons_of_mem _ (ih hl))

theorem exists_mem_of_mem_joinLines {c : Char} (hlf : c ≠ '\n') {ls : List String}
    (hc : c ∈ (joinLines ls).toList) : ∃ l ∈ ls, c ∈ l.toList := by
  induction ls with
  | nil => simp [joinLines] at hc
  | cons l ls ih =>
      by_cases hnil : ls = []
      · subst hnil
        exact ⟨l, List.mem_cons_self, by simpa [joinLines] using hc⟩
      · rw [toList_joinLines_cons hnil, List.mem_append, List.mem_cons] at hc
        rcases hc with hc | hc | hc
        · exact ⟨l, List.mem_cons_self, hc⟩
        · exact absurd hc hlf
        · obtain ⟨l', hl', hmem⟩ := ih hc
          exact ⟨l', List.mem_cons_of_mem l hl', hmem⟩

/-! ### Trimming -/

/-- Trimming keeps all that stands between two characters that are not trimmed. -/
theorem trimEnds_append {p : Char → Bool} {c d : Char} (hc : p c = false) (hd : p d = false)
    (cs ds es : List Char) : trimEnds p (cs ++ (c :: ds ++ d :: es)) =
      cs.dropWhile p ++ (c :: ds ++ d :: es.rdropWhile p) := by
  have hfront : ∀ rest, (cs ++ c :: rest).dropWhile p = cs.dropWhile p ++ c :: rest := by
    intro rest
    rw [List.dropWhile_append]
    split
    · rename_i hnil
      rw [List.isEmpty_iff.mp hnil, List.nil_append, List.dropWhile_cons_of_neg (by simp [hc])]
    · rfl
  have hback : ∀ front, (front ++ d :: es).rdropWhile p = front ++ d :: es.rdropWhile p := by
    intro front
    induction es using List.reverseRecOn with
    | nil => rw [List.rdropWhile_concat_neg _ _ _ (by simp [hd]), List.rdropWhile_nil]
    | append_singleton es e ih =>
        cases he : p e with
        | true =>
            rw [← List.cons_append, ← List.append_assoc, List.rdropWhile_concat_pos _ _ _ he, ih,
              List.rdropWhile_concat_pos _ _ _ he]
        | false =>
            rw [← List.cons_append, ← List.append_assoc,
              List.rdropWhile_concat_neg _ _ _ (by simp [he]),
              List.rdropWhile_concat_neg _ _ _ (by simp [he])]
            simp
  show (List.dropWhile p (cs ++ (c :: ds ++ d :: es))).rdropWhile p = _
  rw [List.cons_append, hfront, ← List.cons_append, ← List.append_assoc, hback,
    List.append_assoc]

end Text

namespace Target

open Text (HasLine EndsLine)

/-! ### Skeletons -/

theorem toList_fill (skeleton : String) (values : List (String × String)) :
    (fill skeleton values).toList =
      fillFrom (values.map fun v => (v.1.toList, v.2.toList)) 0 skeleton.toList :=
  String.toList_ofList

theorem fillFrom_cons_of_ne {values : List (List Char × List Char)} {c : Char} (hc : c ≠ '<')
    (cs : List Char) : fillFrom values 0 (c :: cs) = c :: fillFrom values 0 cs := by
  rw [fillFrom, if_neg hc]

theorem prefix_append_lf_iff {placeholder : List Char} (h : '\n' ∉ placeholder)
    (cs ds : List Char) : placeholder <+: cs ++ '\n' :: ds ↔ placeholder <+: cs := by
  constructor
  · intro hp
    have hline : cs ++ ['\n'] <+: cs ++ '\n' :: ds := ⟨ds, by simp⟩
    rcases List.prefix_or_prefix_of_prefix hp hline with hp | hp
    · rcases List.prefix_concat_iff.mp hp with rfl | hp
      · exact absurd (List.mem_append_right cs List.mem_cons_self) h
      · exact hp
    · exact absurd (hp.subset (List.mem_append_right cs List.mem_cons_self)) h
  · exact fun hp => hp.trans (List.prefix_append cs _)

/-- The characters in front of a line feed are filled apart from those behind it. -/
theorem fillFrom_append_lf {values : List (List Char × List Char)}
    (h : ∀ v ∈ values, '\n' ∉ v.1) (ds : List Char) : ∀ (cs : List Char) (skip : Nat),
      skip ≤ cs.length → fillFrom values skip (cs ++ '\n' :: ds) =
        fillFrom values skip cs ++ '\n' :: fillFrom values 0 ds
  | [], 0, _ => fillFrom_cons_of_ne (by decide) ds
  | c :: cs, skip + 1, hskip => by
      rw [List.cons_append, fillFrom, fillFrom]
      exact fillFrom_append_lf h ds cs skip (by simpa using hskip)
  | c :: cs, 0, _ => by
      have hfind : values.find? (fun v => v.1.isPrefixOf (c :: (cs ++ '\n' :: ds))) =
          values.find? fun v => v.1.isPrefixOf (c :: cs) := by
        apply List.find?_congr
        intro v hv
        rw [Bool.eq_iff_iff, List.isPrefixOf_iff_prefix, List.isPrefixOf_iff_prefix,
          ← List.cons_append, prefix_append_lf_iff (h v hv)]
      rw [List.cons_append, fillFrom, fillFrom, hfind]
      split
      · split
        · rename_i placeholder value hvalue
          have hprefix : placeholder <+: c :: cs := by
            have hfound := List.find?_some hvalue
            exact List.isPrefixOf_iff_prefix.mp hfound
          -- A placeholder ends in front of the line feed, and so does what is skipped for it.
          have hskip : placeholder.length - 1 ≤ cs.length := by
            have hlen := hprefix.length_le
            rw [List.length_cons] at hlen
            omega
          rw [fillFrom_append_lf h ds cs _ hskip, List.append_assoc]
        · rw [fillFrom_append_lf h ds cs 0 (Nat.zero_le _), List.cons_append]
      · rw [fillFrom_append_lf h ds cs 0 (Nat.zero_le _), List.cons_append]

/-- A skeleton is filled line by line, if no placeholder has a line feed. -/
theorem fill_joinLines {values : List (String × String)} (h : ∀ v ∈ values, '\n' ∉ v.1.toList)
    (lines : List String) :
    fill (Text.joinLines lines) values = Text.joinLines (lines.map fun l => fill l values) := by
  have hvalues : ∀ v ∈ values.map fun v => (v.1.toList, v.2.toList), '\n' ∉ v.1 := by
    intro v hv
    obtain ⟨w, hw, rfl⟩ := List.mem_map.mp hv
    exact h w hw
  induction lines with
  | nil => rfl
  | cons l ls ih =>
      cases ls with
      | nil => simp [Text.joinLines]
      | cons l' ls =>
          rw [List.map_cons] at ih
          rw [← String.toList_inj, List.map_cons, List.map_cons, Text.toList_joinLines_cons_cons,
            ← ih]
          simp only [fill, String.toList_ofList, Text.toList_joinLines_cons_cons]
          exact fillFrom_append_lf hvalues _ _ 0 (Nat.zero_le _)

/-- A skeleton starts with the placeholders of head and comment, if its third line starts with the
latter. -/
theorem opening_joinLines {line : String} {c : Char}
    (h : "<comment>".toList ++ [c] <+: line.toList) (lines : List String) :
    "<header>\n\n<comment>".toList ++ [c] <+:
      (Text.joinLines ("<header>" :: "" :: line :: lines)).toList := by
  obtain ⟨cs, hcs⟩ := h
  obtain ⟨rest, hrest⟩ := Text.exists_toList_joinLines_cons line lines
  have hfront : (Text.joinLines ("<header>" :: "" :: line :: lines)).toList =
      "<header>\n\n".toList ++ (Text.joinLines (line :: lines)).toList := by
    simp [Text.joinLines]
  refine ⟨cs ++ rest, ?_⟩
  rw [hfront, hrest, ← hcs]
  simp

/-- A skeleton that starts with the placeholders of head and comment keeps both, when it is filled,
in front of the character that follows. -/
theorem exists_fill_eq {skeleton : String} {c : Char} (hc : c ≠ '<')
    (h : "<header>\n\n<comment>".toList ++ [c] <+: skeleton.toList) (head comment : String)
    (values : List (String × String)) : ∃ rest,
    (fill skeleton (("<header>", head) :: ("<comment>", comment) :: values)).toList =
      head.toList ++ '\n' :: '\n' :: (comment.toList ++ c :: rest) := by
  obtain ⟨cs, hcs⟩ := h
  obtain ⟨vs, hvs⟩ : ∃ vs, (("<header>", head) :: ("<comment>", comment) :: values).map
      (fun v => (v.1.toList, v.2.toList)) =
        ("<header>".toList, head.toList) :: ("<comment>".toList, comment.toList) :: vs := ⟨_, rfl⟩
  refine ⟨fillFrom (("<header>".toList, head.toList) ::
    ("<comment>".toList, comment.toList) :: vs) 0 cs, ?_⟩
  rw [fill, String.toList_ofList, hvs, ← hcs]
  show head.toList ++ '\n' :: '\n' :: (comment.toList ++ fillFrom _ 0 (c :: cs)) = _
  rw [fillFrom_cons_of_ne hc]

/-! ### Heads -/

theorem exists_toList_header_of_named {package : String} (h : package ≠ "")
    (imports : List String) :
    ∃ cs, (header package imports).toList = "package ".toList ++ cs := by
  rw [header, if_neg h]
  split
  · exact ⟨package.toList ++ [';'], by simp⟩
  · exact ⟨package.toList ++ ';' :: '\n' :: '\n' ::
      (Text.joinLines (importLines package imports)).toList, by simp⟩

theorem header_unnamed (imports : List String) :
    header "" imports = Text.joinLines (importLines "" imports) := by
  rw [header, if_pos rfl]
  split
  · rename_i h
    rw [h]
    rfl
  · simp

theorem toList_header_eq_or (package : String) (imports : List String) :
    (header package imports).toList = [] ∨ ∃ c cs, (header package imports).toList = c :: cs ∧
      Text.isBlank c = false := by
  by_cases h : package = ""
  · subst h
    rw [header_unnamed, importLines_eq]
    cases importedPaths "" imports with
    | nil => exact Or.inl rfl
    | cons path paths =>
        obtain ⟨rest, hrest⟩ :=
          Text.exists_toList_joinLines_cons (importLine path) (paths.map importLine)
        refine Or.inr ⟨'i', "mport ".toList ++ path.toList ++ ';' :: rest, ?_, rfl⟩
        rw [List.map_cons, hrest]
        simp [importLine]
  · obtain ⟨cs, hcs⟩ := exists_toList_header_of_named h imports
    exact Or.inr ⟨'p', _, hcs, rfl⟩

theorem exists_toList_header_of_imports {package : String} {imports : List String}
    (h : importLines package imports ≠ []) : ∃ before, EndsLine before ∧
      (header package imports).toList =
        before ++ (Text.joinLines (importLines package imports)).toList := by
  by_cases hp : package = ""
  · subst hp
    exact ⟨[], Or.inl rfl, by rw [header_unnamed, List.nil_append]⟩
  · refine ⟨("package " ++ package ++ ";").toList ++ ['\n', '\n'], Or.inr ?_, ?_⟩
    · rw [List.getLast?_append]
      rfl
    · rw [header, if_neg hp, if_neg h]
      simp

/-- The import lines are lines of the head of a source, whatever follows the line feed behind
it. -/
theorem exists_header_append_eq {package path : String} {imports : List String}
    (h : path ∈ importedPaths package imports) (rest : List Char) : ∃ before after,
      EndsLine before ∧ (header package imports).toList ++ '\n' :: rest =
        before ++ (importLine path).toList ++ '\n' :: after := by
  have hline : importLine path ∈ importLines package imports := by
    rw [importLines_eq]
    exact List.mem_map_of_mem h
  obtain ⟨front, hfront, heq⟩ := exists_toList_header_of_imports (List.ne_nil_of_mem hline)
  obtain ⟨before, after, hbefore, hlines⟩ := Text.exists_joinLines_eq hline rest
  refine ⟨front ++ before, after, hfront.append hbefore, ?_⟩
  rw [heq, List.append_assoc, hlines]
  simp

/-! ### Artifacts -/

namespace Artifact

/-- The paths that the source asks to import. -/
def imports : Artifact → List String
  | .bean b => b.allImports
  | .enumClass _ => []
  | .serviceInterface i => i.imports
  | .controller c => c.imports

/-- The head of the source. -/
def head (a : Artifact) : String :=
  header a.package a.imports

/-- The source before it is trimmed. -/
theorem exists_fill_skeleton (a : Artifact) : ∃ source c comment rest,
    a.text = Text.trim source ∧ Text.isBlank c = false ∧
      source.toList = a.head.toList ++ '\n' :: '\n' :: (comment ++ c :: rest) := by
  cases a with
  | bean b =>
      have hskeleton : "<header>\n\n<comment>".toList ++ ['p'] <+: Bean.skeleton.toList :=
        opening_joinLines (by decide) _
      obtain ⟨rest, h⟩ := exists_fill_eq (by decide) hskeleton (header b.package b.allImports)
        (classComment b.comment) [("<name>", b.name), ("<body>", b.body)]
      exact ⟨b.text, 'p', _, rest, rfl, rfl, h⟩
  | enumClass e =>
      have hskeleton : "<header>\n\n<comment>".toList ++ ['p'] <+: EnumClass.skeleton.toList :=
        opening_joinLines (by decide) _
      obtain ⟨rest, h⟩ := exists_fill_eq (by decide) hskeleton (header e.package [])
        (classComment e.comment) [("<values>", e.values), ("<name>", e.name)]
      exact ⟨e.text, 'p', _, rest, rfl, rfl, h⟩
  | serviceInterface i =>
      have hskeleton : "<header>\n\n<comment>".toList ++ ['p'] <+:
          ServiceInterface.skeleton.toList :=
        opening_joinLines (by decide) _
      obtain ⟨rest, h⟩ := exists_fill_eq (by decide) hskeleton (header i.package i.imports)
        (classComment i.comment) [("<name>", i.name), ("<methods>", i.methods)]
      exact ⟨i.text, 'p', _, rest, rfl, rfl, h⟩
  | controller c =>
      have hskeleton : "<header>\n\n<comment>".toList ++ ['@'] <+: Controller.skeleton.toList :=
        opening_joinLines (by decide) _
      obtain ⟨rest, h⟩ := exists_fill_eq (by decide) hskeleton (header c.package c.imports)
        (classComment c.comment) [("<handlers>", c.handlers), ("<name>", c.name),
          ("<service>", c.serviceName), ("<variable>", c.serviceVariable)]
      exact ⟨c.text, '@', _, rest, rfl, rfl, h⟩

theorem exists_text_eq {a : Artifact} (h : a.head ≠ "") :
    ∃ rest, a.text.toList = a.head.toList ++ '\n' :: '\n' :: rest := by
  obtain ⟨source, d, comment, rest, htext, hd, hsource⟩ := a.exists_fill_skeleton
  rcases toList_header_eq_or a.package a.imports with hnil | ⟨c, cs, hhead, hc⟩
  · exact absurd (String.toList_inj.mp hnil) h
  · have hkept := Text.trimEnds_append hc hd [] (cs ++ '\n' :: '\n' :: comment) rest
    refine ⟨comment ++ d :: rest.rdropWhile Text.isBlank, ?_⟩
    rw [head, hhead] at hsource ⊢
    rw [htext, Text.trim, String.toList_ofList, hsource]
    simpa using hkept

theorem head_prefix_text (a : Artifact) : a.head.toList <+: a.text.toList := by
  by_cases h : a.head = ""
  · rw [h]
    exact List.nil_prefix
  · obtain ⟨rest, hrest⟩ := exists_text_eq h
    exact ⟨_, hrest.symm⟩

/-- The paths that are imported: those that need an import line. -/
def importedPaths (a : Artifact) : List String :=
  Target.importedPaths a.package a.imports

theorem hasLine_text {a : Artifact} {path : String} (h : path ∈ a.importedPaths) :
    HasLine a.text (importLine path) := by
  obtain ⟨before, after, -, heq⟩ := exists_header_append_eq h []
  have hne : a.head ≠ "" := by
    intro hnil
    rw [show header a.package a.imports = a.head from rfl, hnil] at heq
    have hlen := congrArg List.length heq
    simp only [importLine, String.toList_append, List.length_append, List.length_cons] at hlen
    simp at hlen
    omega
  obtain ⟨rest, htext⟩ := exists_text_eq hne
  obtain ⟨before, after, hbefore, heq⟩ := exists_header_append_eq h ('\n' :: rest)
  exact ⟨before, after, hbefore, htext.trans heq⟩

end Artifact

end Target

end RestScaffold
