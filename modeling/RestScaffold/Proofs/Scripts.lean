import Mathlib.Data.List.Infix
import RestScaffold.Proofs.Declarations
import RestScaffold.Proofs.TextLines

/-! # Scripts

What a script adds to a page, whatever the page has on it.

* `linesAt`, `depthAfter`: the lines that a script contributes at a depth, and the depth behind it;
* `Page.run_eq`: a script appends its lines to those of the page;
* `IsLevel`: a script that leaves the depth as it found it;
* `linesAt_flatMap`, `IsLevel.linesAt_braces`, `linesAt_separated`: the lines of scripts made of
  scripts;
* `linesOf`, `rowOf`: blocks of texts, each with its depth, line by line and set apart in a row;
* `IsMember`, `intercalate_layout`: sections that are joined are one row;
* `splitAt_layout`: a text that was laid out has the lines of its script;
* `linesAt_docLines`, `splitAt_classComment`: the lines of comments, none of which is empty. -/

namespace RestScaffold.Target

open Text (Unbroken unbroken_append)

/-! ### Lines of a text at a depth -/

theorem indented_ne_nil (depth : Nat) (text : String) : indented depth text ≠ [] := by
  simp [indented, Text.splitAt_ne_nil]

theorem unbroken_indentLine {line : String} (h : Unbroken line) (depth : Nat) :
    Unbroken (indentLine depth line) := by
  unfold indentLine
  split
  · decide
  · exact unbroken_append.mpr ⟨by simp [Unbroken, indentation], h⟩

theorem unbroken_of_mem_indented {depth : Nat} {text line : String}
    (h : line ∈ indented depth text) : Unbroken line := by
  obtain ⟨piece, hpiece, rfl⟩ := List.mem_map.mp h
  exact unbroken_indentLine (Text.unbroken_of_mem_splitAt hpiece) depth

theorem indented_of_unbroken {text : String} (h : Unbroken text) (hne : text ≠ "")
    (depth : Nat) : indented depth text = [indentation depth ++ text] := by
  rw [indented, h.splitAt, List.map_singleton, indentLine, if_neg hne]

theorem indented_brace (depth : Nat) : indented depth "\x7d" = [indentation depth ++ "\x7d"] :=
  indented_of_unbroken (by decide) (by decide) depth

theorem exists_mem_indented {text : String} {c : Char} (hc : c ∈ text.toList) (hlf : c ≠ '\n')
    (depth : Nat) : ∃ l ∈ indented depth text, l ≠ "" := by
  rw [← Text.joinLines_splitAt text] at hc
  obtain ⟨piece, hpiece, hmem⟩ := Text.exists_mem_of_mem_joinLines hlf hc
  have hne : piece ≠ "" := by
    rintro rfl
    exact absurd hmem List.not_mem_nil
  refine ⟨indentLine depth piece, List.mem_map_of_mem hpiece, ?_⟩
  rw [indentLine, if_neg hne]
  simp [hne]

/-- The lines of texts that each stand at a depth. -/
def linesOf (block : List (Nat × String)) : List String :=
  block.flatMap fun t => indented t.1 t.2

theorem infix_linesOf {block : List (Nat × String)} {t : Nat × String} (h : t ∈ block) :
    indented t.1 t.2 <:+: linesOf block := by
  rw [linesOf, List.flatMap_def]
  exact List.infix_of_mem_flatten (List.mem_map_of_mem h)

/-- Every text is one line, and not an empty one. -/
def OneLined (block : List (Nat × String)) : Prop :=
  ∀ t ∈ block, Unbroken t.2 ∧ t.2 ≠ ""

theorem OneLined.linesOf_eq {block : List (Nat × String)} (h : OneLined block) :
    linesOf block = block.map fun t => indentation t.1 ++ t.2 := by
  rw [linesOf, List.map_eq_flatMap]
  exact List.flatMap_congr fun t ht => indented_of_unbroken (h t ht).1 (h t ht).2 t.1

/-! ### Lines of a script -/

/-- The depth behind a step. -/
def Step.depthAfter (depth : Nat) : Step → Nat
  | .indent => depth + 1
  | .dedent => depth - 1
  | _ => depth

/-- The lines that a step contributes at a depth. -/
def Step.linesAt (depth : Nat) : Step → List String
  | .push text => indented depth text
  | .doc comment => (docLines comment).flatMap (indented depth)
  | .blank => [""]
  | _ => []

theorem Page.step_eq (p : Page) (s : Step) :
    p.step s = ⟨p.lines ++ s.linesAt p.depth, s.depthAfter p.depth⟩ := by
  cases s with
  | push text => rfl
  | doc comment => exact foldl_push p (docLines comment)
  | blank => rfl
  | indent => simp [Page.step, Step.linesAt, Step.depthAfter]
  | dedent => simp [Page.step, Step.linesAt, Step.depthAfter]

/-- The depth behind a script. -/
def depthAfter (depth : Nat) : List Step → Nat
  | [] => depth
  | s :: script => depthAfter (s.depthAfter depth) script

/-- The lines that a script contributes at a depth. -/
def linesAt (depth : Nat) : List Step → List String
  | [] => []
  | s :: script => s.linesAt depth ++ linesAt (s.depthAfter depth) script

/-- A script appends its lines, and moves the depth. -/
theorem Page.run_eq (script : List Step) : ∀ p : Page,
    p.run script = ⟨p.lines ++ linesAt p.depth script, depthAfter p.depth script⟩ := by
  induction script with
  | nil => intro p; simp [Page.run, linesAt, depthAfter]
  | cons s script ih =>
      intro p
      rw [Page.run, List.foldl_cons, ← Page.run, Page.step_eq, ih, linesAt, depthAfter,
        List.append_assoc]

theorem layout_eq (depth : Nat) (script : List Step) :
    layout depth script = Text.joinLines (linesAt depth script) := by
  rw [layout, Page.run_eq]
  rfl

@[simp] theorem linesAt_push (depth : Nat) (text : String) (script : List Step) :
    linesAt depth (.push text :: script) = indented depth text ++ linesAt depth script := rfl

@[simp] theorem linesAt_doc (depth : Nat) (comment : String) (script : List Step) :
    linesAt depth (.doc comment :: script) =
      (docLines comment).flatMap (indented depth) ++ linesAt depth script := rfl

@[simp] theorem linesAt_nil (depth : Nat) : linesAt depth [] = [] := rfl

theorem depthAfter_append (script rest : List Step) : ∀ depth : Nat,
    depthAfter depth (script ++ rest) = depthAfter (depthAfter depth script) rest := by
  induction script with
  | nil => exact fun _ => rfl
  | cons s script ih => exact fun depth => ih (s.depthAfter depth)

theorem linesAt_append (script rest : List Step) : ∀ depth : Nat,
    linesAt depth (script ++ rest) =
      linesAt depth script ++ linesAt (depthAfter depth script) rest := by
  induction script with
  | nil => exact fun _ => rfl
  | cons s script ih =>
      intro depth
      rw [List.cons_append, linesAt, ih, linesAt, List.append_assoc]
      rfl

/-! ### Level scripts -/

/-- The script leaves the depth as it found it. -/
def IsLevel (script : List Step) : Prop :=
  ∀ depth, depthAfter depth script = depth

section

variable {script rest : List Step}

@[simp] theorem isLevel_nil : IsLevel [] := fun _ => rfl

@[simp] theorem isLevel_push (text : String) : IsLevel [.push text] := fun _ => rfl

@[simp] theorem isLevel_doc (comment : String) : IsLevel [.doc comment] := fun _ => rfl

theorem IsLevel.append (h : IsLevel script) (hrest : IsLevel rest) : IsLevel (script ++ rest) := by
  intro depth
  rw [depthAfter_append, h, hrest]

theorem IsLevel.flatMap {α : Type} {f : α → List Step} (h : ∀ a, IsLevel (f a)) (as : List α) :
    IsLevel (as.flatMap f) := by
  induction as with
  | nil => exact isLevel_nil
  | cons a as ih => exact (h a).append ih

theorem isLevel_map_push (texts : List String) : IsLevel (texts.map .push) := by
  rw [List.map_eq_flatMap]
  exact IsLevel.flatMap isLevel_push texts

/-- What is laid out one level deeper ends at the level where it started. -/
theorem IsLevel.deeper (h : IsLevel script) : IsLevel (deeper script) := by
  intro depth
  have hbody : depthAfter (depth + 1) script = depth + 1 := h (depth + 1)
  rw [Target.deeper, depthAfter_append, depthAfter_append]
  exact congrArg (· - 1) hbody

theorem linesAt_deeper (depth : Nat) (script : List Step) :
    linesAt depth (deeper script) = linesAt (depth + 1) script := by
  rw [deeper, linesAt_append, List.singleton_append, linesAt]
  exact List.append_nil _

theorem IsLevel.linesAt_append (h : IsLevel script) (depth : Nat) (rest : List Step) :
    linesAt depth (script ++ rest) = linesAt depth script ++ linesAt depth rest := by
  rw [Target.linesAt_append, h]

theorem linesAt_flatMap {α : Type} {f : α → List Step} (h : ∀ a, IsLevel (f a)) (depth : Nat)
    (as : List α) : linesAt depth (as.flatMap f) = as.flatMap fun a => linesAt depth (f a) := by
  induction as with
  | nil => rfl
  | cons a as ih => rw [List.flatMap_cons, (h a).linesAt_append, ih, List.flatMap_cons]

theorem linesAt_map_push (depth : Nat) (texts : List String) :
    linesAt depth (texts.map .push) = texts.flatMap (indented depth) := by
  rw [List.map_eq_flatMap, linesAt_flatMap isLevel_push]
  simp

/-- What stands in braces is level if its body is. -/
theorem IsLevel.braces (h : IsLevel script) (front : String) :
    IsLevel ([.push front] ++ Target.deeper script ++ [.push "\x7d"]) :=
  ((isLevel_push front).append h.deeper).append (isLevel_push _)

theorem IsLevel.linesAt_braces (h : IsLevel script) (depth : Nat) (front : String) :
    linesAt depth ([.push front] ++ Target.deeper script ++ [.push "\x7d"]) =
      indented depth front ++ linesAt (depth + 1) script ++ [indentation depth ++ "\x7d"] := by
  rw [((isLevel_push front).append h.deeper).linesAt_append, List.singleton_append, linesAt_push,
    linesAt_deeper, linesAt_push, linesAt_nil, List.append_nil, indented_brace]

theorem linesAt_separated (depth : Nat) : ∀ {scripts : List (List Step)},
    (∀ script ∈ scripts, IsLevel script) →
      linesAt depth (separated scripts) = [""].intercalate (scripts.map (linesAt depth))
  | [], _ => rfl
  | [script], _ => by simp [separated]
  | script :: script' :: scripts, h => by
      obtain ⟨hscript, hrest⟩ := List.forall_mem_cons.mp h
      have hsplit : separated (script :: script' :: scripts) =
          script ++ .blank :: separated (script' :: scripts) := by
        simp [separated]
      rw [hsplit, hscript.linesAt_append, linesAt, List.map_cons, List.map_cons,
        List.intercalate_cons_cons, ← List.map_cons, ← linesAt_separated depth hrest,
        List.append_assoc]
      rfl

/-- The text of a row of blocks, with an empty line between each two. -/
def rowOf (blocks : List (List (Nat × String))) : String :=
  Text.joinLines ([""].intercalate (blocks.map linesOf))

/-- Level scripts that are set apart are laid out with an empty line between each two. -/
theorem layout_separated (depth : Nat) {scripts : List (List Step)}
    (h : ∀ script ∈ scripts, IsLevel script) : layout depth (separated scripts) =
      Text.joinLines ([""].intercalate (scripts.map (linesAt depth))) := by
  rw [layout_eq, linesAt_separated depth h]

end

/-! ### Rows of scripts -/

/-- The script is level, and has a line that is not empty. -/
structure IsMember (depth : Nat) (script : List Step) : Prop where
  level : IsLevel script
  line : ∃ l ∈ linesAt depth script, l ≠ ""

theorem IsMember.linesAt_ne_nil {depth : Nat} {script : List Step} (h : IsMember depth script) :
    linesAt depth script ≠ [] := by
  obtain ⟨l, hl, -⟩ := h.line
  exact List.ne_nil_of_mem hl

/-- What stands in braces has the line of the brace that closes it. -/
theorem IsLevel.isMember_braces {script : List Step} (h : IsLevel script) (depth : Nat)
    (front : String) : IsMember depth ([.push front] ++ Target.deeper script ++ [.push "\x7d"]) where
  level := h.braces front
  line := by
    rw [h.linesAt_braces]
    exact ⟨indentation depth ++ "\x7d", by simp, by simp⟩

section

variable {depth : Nat} {row rest : List (List Step)}

theorem linesAt_separated_ne_nil (h : ∀ script ∈ row, IsMember depth script) (hne : row ≠ []) :
    [""].intercalate (row.map (linesAt depth)) ≠ [] := by
  obtain ⟨script, row, rfl⟩ := List.exists_cons_of_ne_nil hne
  rw [List.map_cons, intercalate_cons]
  exact List.append_ne_nil_of_left_ne_nil (h script List.mem_cons_self).linesAt_ne_nil _

theorem layout_separated_ne_empty (h : ∀ script ∈ row, IsMember depth script) (hne : row ≠ []) :
    layout depth (separated row) ≠ "" := by
  rw [layout_separated depth fun script hscript => (h script hscript).level]
  obtain ⟨script, hscript⟩ := List.exists_mem_of_ne_nil row hne
  obtain ⟨l, hl, hline⟩ := (h script hscript).line
  obtain ⟨c, hc⟩ := List.exists_mem_of_ne_nil l.toList (mt String.toList_eq_nil_iff.mp hline)
  have hrow : l ∈ [""].intercalate (row.map (linesAt depth)) :=
    mem_intercalate hl (List.mem_map_of_mem hscript)
  have hmem := Text.mem_joinLines hc hrow
  intro hempty
  rw [hempty] at hmem
  exact absurd hmem List.not_mem_nil

theorem layout_separated_append (h : ∀ script ∈ row, IsMember depth script)
    (hrest : ∀ script ∈ rest, IsMember depth script) (hne : row ≠ []) (hne' : rest ≠ []) :
    layout depth (separated (row ++ rest)) =
      layout depth (separated row) ++ "\n\n" ++ layout depth (separated rest) := by
  have hlevel : ∀ script ∈ row ++ rest, IsLevel script :=
    List.forall_mem_append.mpr ⟨fun s hs => (h s hs).level, fun s hs => (hrest s hs).level⟩
  have hlines := linesAt_separated_ne_nil h hne
  have hlines' := linesAt_separated_ne_nil hrest hne'
  have hmap : row.map (linesAt depth) ≠ [] := mt List.map_eq_nil_iff.mp hne
  have hmap' : rest.map (linesAt depth) ≠ [] := mt List.map_eq_nil_iff.mp hne'
  rw [layout_separated depth hlevel, List.map_append, intercalate_append hmap hmap',
    List.append_assoc, Text.joinLines, String.intercalate_append_of_ne_nil hlines (by simp),
    List.singleton_append, String.intercalate_cons_of_ne_nil hlines',
    layout_separated depth fun s hs => (h s hs).level,
    layout_separated depth fun s hs => (hrest s hs).level]
  simp [Text.joinLines, ← String.toList_inj]

/-- Sections that are joined are one row, and a section without scripts does not count. -/
theorem intercalate_layout : ∀ {rows : List (List (List Step))},
    (∀ row ∈ rows, ∀ script ∈ row, IsMember depth script) →
      "\n\n".intercalate ((rows.map fun row => layout depth (separated row)).filter (· ≠ "")) =
          layout depth (separated rows.flatten) ∧
        ((rows.map fun row => layout depth (separated row)).filter (· ≠ "") = [] ↔
          rows.flatten = [])
  | [], _ => ⟨rfl, by simp⟩
  | row :: rows, h => by
      obtain ⟨hrow, hrows⟩ := List.forall_mem_cons.mp h
      obtain ⟨ih, ihnil⟩ := intercalate_layout hrows
      have hflat : ∀ script ∈ rows.flatten, IsMember depth script := by
        intro script hscript
        obtain ⟨other, hother, hmem⟩ := List.mem_flatten.mp hscript
        exact hrows other hother script hmem
      by_cases hne : row = []
      · have hempty : layout depth (separated ([] : List (List Step))) = "" := rfl
        rw [hne, List.map_cons, List.filter_cons_of_neg (by simp [hempty]), List.flatten_cons,
          List.nil_append]
        exact ⟨ih, ihnil⟩
      · have htext := layout_separated_ne_empty hrow hne
        rw [List.map_cons, List.filter_cons_of_pos (by simp [htext]), List.flatten_cons]
        refine ⟨?_, by simp [hne]⟩
        by_cases hnil : rows.flatten = []
        · rw [ihnil.mpr hnil, hnil, List.append_nil, String.intercalate_singleton]
        · rw [String.intercalate_cons_of_ne_nil (mt ihnil.mp hnil), ih,
            layout_separated_append hrow hflat hne hnil]

end

/-! ### Lines of a laid out text -/

theorem unbroken_of_mem_linesAt {line : String} : ∀ {script : List Step} {depth : Nat},
    line ∈ linesAt depth script → Unbroken line
  | s :: script, depth, h => by
      rcases List.mem_append.mp h with h | h
      · cases s with
        | push text => exact unbroken_of_mem_indented h
        | doc comment =>
            obtain ⟨shown, -, h⟩ := List.mem_flatMap.mp h
            exact unbroken_of_mem_indented h
        | blank =>
            obtain rfl := List.mem_singleton.mp h
            decide
        | indent => exact absurd h List.not_mem_nil
        | dedent => exact absurd h List.not_mem_nil
      · exact unbroken_of_mem_linesAt h

theorem splitAt_layout {depth : Nat} {script : List Step} (h : linesAt depth script ≠ []) :
    Text.splitAt '\n' (layout depth script) = linesAt depth script := by
  rw [layout_eq, Text.splitAt_joinLines_of_unbroken h fun _ => unbroken_of_mem_linesAt]

/-! ### Comments -/

theorem mem_escapeCloser {c : Char} (cs : List Char) (h : c ∈ escapeCloser cs) :
    c ∈ cs ∨ c ∈ ['&', '#', '4', '7', ';'] := by
  fun_induction escapeCloser cs with
  | case1 => exact Or.inl h
  | case2 cs ih => grind
  | case3 d cs _ ih =>
      rcases List.mem_cons.mp h with rfl | h
      · exact Or.inl List.mem_cons_self
      · exact (ih h).imp_left (List.mem_cons_of_mem d)

theorem unbroken_docLine {line : String} (h : Unbroken line) : Unbroken (docLine line) := by
  have hshown : Unbroken (String.ofList (escapeCloser (Text.trim line).toList)) := by
    intro hmem
    rw [String.toList_ofList] at hmem
    rcases mem_escapeCloser _ hmem with hmem | hmem
    · exact h (Text.trim_subset line hmem)
    · exact absurd hmem (by decide)
  simp only [docLine]
  split
  · decide
  · exact unbroken_append.mpr ⟨by decide, hshown⟩

theorem docLine_ne_empty (line : String) : docLine line ≠ "" := by
  simp only [docLine]
  split
  · decide
  · simp

/-- The lines of a comment are not empty, and no line feed is left in them. -/
theorem unbroken_of_mem_docLines {comment line : String} (h : line ∈ docLines comment) :
    Unbroken line ∧ line ≠ "" := by
  have hlines : ∀ l ∈ Text.lines comment, Unbroken l := by
    intro l hl
    have hpiece : l ∈ Text.splitAt '\n' comment := by
      simp only [Text.lines] at hl
      split at hl
      · exact List.mem_of_mem_dropLast hl
      · exact hl
    exact Text.unbroken_of_mem_splitAt hpiece
  unfold docLines at h
  split at h
  · exact absurd h List.not_mem_nil
  · rcases List.mem_append.mp h with h | h
    · rcases List.mem_append.mp h with h | h
      · obtain rfl := List.mem_singleton.mp h
        decide
      · obtain ⟨l, hl, rfl⟩ := List.mem_map.mp h
        exact ⟨unbroken_docLine (hlines l hl), docLine_ne_empty l⟩
    · obtain rfl := List.mem_singleton.mp h
      decide

theorem linesAt_docLines (depth : Nat) (comment : String) :
    (docLines comment).flatMap (indented depth) =
      (docLines comment).map (indentation depth ++ ·) := by
  rw [List.map_eq_flatMap]
  refine List.flatMap_congr fun line hline => ?_
  obtain ⟨hunbroken, hne⟩ := unbroken_of_mem_docLines hline
  exact indented_of_unbroken hunbroken hne depth

/-- A comment of a class has the lines of its text, whatever follows it. -/
theorem splitAt_classComment (comment s : String) :
    Text.splitAt '\n' (classComment comment ++ s) = docLines comment ++ Text.splitAt '\n' s := by
  by_cases h : comment = ""
  · rw [classComment, if_pos h, docLines, if_pos h, String.empty_append, List.nil_append]
  · have hlines : linesAt 0 [.doc comment] = docLines comment := by
      rw [linesAt_doc, linesAt_docLines, linesAt_nil, List.append_nil]
      simp [indentation]
    have hne : linesAt 0 [.doc comment] ≠ [] := by
      rw [hlines, docLines, if_neg h]
      simp
    rw [classComment, if_neg h, Text.splitAt_append_lf, splitAt_layout hne, hlines]

end RestScaffold.Target
