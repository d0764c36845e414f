import Mathlib.Order.Bounds.Basic
import RestScaffold.Proofs.DocComments

/-! # Blocks of scripts

The text of a script is made of one block of lines for each step, and what a step writes depends on
nothing but the depth in force at it. Both are told here without running the script.

* `balance`, `InForce`: the depth behind a script, told by counting its steps;
* `InForce.eq_add_balance`: the count where no dedent is spare;
* `InForce.step`, `inForce_depthAfter`: a step keeps the count, so a script does;
* `IsPieces`, `Placed`, `Step.Contributes`: the lines of one step, piece by piece;
* `Blocks`, `blocks_iff`, `flatten_blocksAt`: the blocks of a script, which are its lines;
* `Page.push_push`, `joinLines_outdent_indented`, `Page.text_ofTexts`: texts that are pushed one
  after the other, read back from their lines, or collected;
* `writesBlocks_layout`: what the text of any script is. -/

namespace RestScaffold.Target

open Text (Unbroken joinLines)

/-! ### The depth in force -/

/-- How often a script goes deeper, less how often it comes back. -/
def balance (script : List Step) : ℤ :=
  script.count .indent - script.count .dedent

theorem balance_append (script rest : List Step) :
    balance (script ++ rest) = balance script + balance rest := by
  simp only [balance, List.count_append]
  omega

/-- The depth behind a script. No dedent goes below zero, so it is the start with the balance of the
script or, where dedents found nothing to take back, the balance of what stands behind the last of
them; of all these balances it is the greatest. -/
def InForce (start : Nat) (script : List Step) (depth : Nat) : Prop :=
  IsGreatest {n : ℤ | n = start + balance script ∨ ∃ rest, rest <:+ script ∧ n = balance rest} depth

theorem InForce.unique {start depth depth' : Nat} {script : List Step}
    (h : InForce start script depth) (h' : InForce start script depth') : depth = depth' :=
  Int.ofNat_inj.mp (IsGreatest.unique h h')

/-- Where every dedent found something to take back, the depth is a matter of counting. -/
theorem InForce.eq_add_balance {start depth : Nat} {script : List Step}
    (h : InForce start script depth)
    (hfloor : ∀ front, front <+: script → 0 ≤ start + balance front) :
    depth = start + balance script := by
  obtain ⟨hmem, hgreatest⟩ := h
  rcases hmem with hwhole | ⟨rest, ⟨front, rfl⟩, hrest⟩
  · exact hwhole
  · have hfront : 0 ≤ start + balance front := hfloor front (List.prefix_append front rest)
    have hle : start + balance (front ++ rest) ≤ depth := hgreatest (Or.inl rfl)
    rw [balance_append] at hle ⊢
    omega

theorem inForce_nil (start : Nat) : InForce start [] start := by
  constructor
  · exact Or.inl (by simp [balance])
  · rintro n (rfl | ⟨rest, hrest, rfl⟩)
    · simp [balance]
    · rw [List.suffix_nil.mp hrest]
      simp [balance]

theorem Step.cast_depthAfter (depth : Nat) (s : Step) :
    (s.depthAfter depth : ℤ) = max (depth + balance [s]) 0 := by
  cases s with
  | push text => simp [depthAfter, balance]
  | doc comment => simp [depthAfter, balance]
  | blank => simp [depthAfter, balance]
  | indent =>
      have hone : balance [.indent] = 1 := by decide
      rw [depthAfter, hone]
      omega
  | dedent =>
      have hone : balance [.dedent] = -1 := by decide
      rw [depthAfter, hone]
      omega

/-- A step keeps the count: the rests of a longer script are the rests of the shorter one with the
step behind them, and the empty one, which keeps the depth from falling below zero. -/
theorem InForce.step {start depth : Nat} {script : List Step} (h : InForce start script depth)
    (s : Step) : InForce start (script ++ [s]) (s.depthAfter depth) := by
  obtain ⟨hmem, hgreatest⟩ := h
  unfold InForce
  rw [s.cast_depthAfter]
  constructor
  · rcases le_total 0 ((depth : ℤ) + balance [s]) with hle | hle
    · rw [max_eq_left hle]
      rcases hmem with hwhole | ⟨rest, hrest, hdepth⟩
      · left
        rw [balance_append]
        omega
      · right
        refine ⟨rest ++ [s], List.suffix_concat_iff.mpr (Or.inr ⟨rest, rfl, hrest⟩), ?_⟩
        rw [balance_append]
        omega
    · rw [max_eq_right hle]
      exact Or.inr ⟨[], List.nil_suffix, rfl⟩
  · rintro n (rfl | ⟨rest, hrest, rfl⟩)
    · have hwhole : start + balance script ≤ depth := hgreatest (Or.inl rfl)
      rw [balance_append]
      omega
    · rcases List.suffix_concat_iff.mp hrest with rfl | ⟨front, rfl, hfront⟩
      · exact le_max_right _ _
      · have hrest : balance front ≤ depth := hgreatest (Or.inr ⟨front, hfront, rfl⟩)
        rw [balance_append]
        omega

theorem inForce_depthAfter (start : Nat) (script : List Step) :
    InForce start script (depthAfter start script) := by
  induction script using List.reverseRecOn with
  | nil => exact inForce_nil start
  | append_singleton script s ih =>
      rw [depthAfter_append]
      exact ih.step s

theorem inForce_iff {start depth : Nat} {script : List Step} :
    InForce start script depth ↔ depthAfter start script = depth := by
  constructor
  · exact (inForce_depthAfter start script).unique
  · rintro rfl
    exact inForce_depthAfter start script

/-! ### The lines of one step -/

/-- The pieces of a text between its line feeds. -/
def IsPieces (text : String) (pieces : List String) : Prop :=
  pieces ≠ [] ∧ (∀ piece ∈ pieces, Unbroken piece) ∧ joinLines pieces = text

theorem isPieces_iff {text : String} {pieces : List String} :
    IsPieces text pieces ↔ Text.splitAt '\n' text = pieces := by
  constructor
  · rintro ⟨hne, hunbroken, rfl⟩
    exact Text.splitAt_joinLines_of_unbroken hne hunbroken
  · rintro rfl
    exact ⟨Text.splitAt_ne_nil '\n' text, fun _ => Text.unbroken_of_mem_splitAt,
      Text.joinLines_splitAt text⟩

/-- The line that a piece becomes at a depth: it stands behind four blanks for each level, and an
empty piece is an empty line. -/
inductive Placed (depth : Nat) : String → String → Prop
  | empty : Placed depth "" ""
  | behind {piece : String} : piece ≠ "" → Placed depth piece (indentation depth ++ piece)

theorem placed_iff {depth : Nat} {piece line : String} :
    Placed depth piece line ↔ indentLine depth piece = line := by
  constructor
  · rintro (_ | hne)
    · rfl
    · rw [indentLine, if_neg hne]
  · rintro rfl
    by_cases hempty : piece = ""
    · subst hempty
      exact Placed.empty
    · rw [indentLine, if_neg hempty]
      exact Placed.behind hempty

/-- The lines that a step contributes at a depth. -/
inductive Step.Contributes (depth : Nat) : Step → List String → Prop
  | push {text : String} {pieces lines : List String} :
      IsPieces text pieces → List.Forall₂ (Placed depth) pieces lines →
        Contributes depth (.push text) lines
  | noComment : Contributes depth (.doc "") []
  | comment {comment : String} :
      comment ≠ "" → Contributes depth (.doc comment) (docBlock depth comment)
  | blank : Contributes depth .blank [""]
  | indent : Contributes depth .indent []
  | dedent : Contributes depth .dedent []

theorem contributes_push_iff {depth : Nat} {text : String} {lines : List String} :
    (Step.push text).Contributes depth lines ↔ indented depth text = lines := by
  have hplaced : ∀ piece line, Placed depth piece line ↔ indentLine depth piece = line :=
    fun _ _ => placed_iff
  constructor
  · rintro ⟨hpieces, hlines⟩
    rw [indented, isPieces_iff.mp hpieces]
    exact (forall₂_iff_map_eq hplaced).mp hlines
  · intro h
    exact Step.Contributes.push (isPieces_iff.mpr rfl) ((forall₂_iff_map_eq hplaced).mpr h)

theorem contributes_doc_iff {depth : Nat} {comment : String} {lines : List String} :
    (Step.doc comment).Contributes depth lines ↔
      (docLines comment).flatMap (indented depth) = lines := by
  by_cases hempty : comment = ""
  · subst hempty
    constructor
    · intro h
      cases h with
      | noComment => rfl
      | comment hne => exact absurd rfl hne
    · rintro rfl
      exact Step.Contributes.noComment
  · rw [flatMap_docLines hempty]
    constructor
    · intro h
      cases h with
      | noComment => exact absurd rfl hempty
      | comment => rfl
    · rintro rfl
      exact Step.Contributes.comment hempty

theorem Step.contributes_iff {depth : Nat} {s : Step} {lines : List String} :
    s.Contributes depth lines ↔ s.linesAt depth = lines := by
  cases s with
  | push text => exact contributes_push_iff
  | doc comment => exact contributes_doc_iff
  | blank => exact ⟨fun h => by cases h; rfl, fun h => h ▸ Contributes.blank⟩
  | indent => exact ⟨fun h => by cases h; rfl, fun h => h ▸ Contributes.indent⟩
  | dedent => exact ⟨fun h => by cases h; rfl, fun h => h ▸ Contributes.dedent⟩

/-! ### The blocks of a script -/

/-- The blocks of a script, one for each step: its lines at the depth in force behind the steps in
front of it. -/
def Blocks (start : Nat) (script : List Step) (blocks : List (List String)) : Prop :=
  ByIndex (fun k s block => ∃ depth, InForce start (script.take k) depth ∧ s.Contributes depth block)
    script blocks

/-- The blocks as the steps of a run write them. -/
def blocksAt (start : Nat) (script : List Step) : List (List String) :=
  script.mapIdx fun k s => s.linesAt (depthAfter start (script.take k))

theorem blocks_iff {start : Nat} {script : List Step} {blocks : List (List String)} :
    Blocks start script blocks ↔ blocksAt start script = blocks := by
  have hblock : ∀ (p : Step × Nat) (block : List String),
      (∃ depth, InForce start (script.take p.2) depth ∧ p.1.Contributes depth block) ↔
        p.1.linesAt (depthAfter start (script.take p.2)) = block := by
    intro p block
    constructor
    · rintro ⟨depth, hdepth, hlines⟩
      rw [inForce_iff.mp hdepth, Step.contributes_iff.mp hlines]
    · intro h
      exact ⟨_, inForce_depthAfter start _, Step.contributes_iff.mpr h⟩
  unfold Blocks ByIndex blocksAt
  rw [forall₂_iff_map_eq hblock, List.mapIdx_eq_zipIdx_map]

theorem flatten_blocksAt (script : List Step) : ∀ start : Nat,
    (blocksAt start script).flatten = linesAt start script := by
  induction script with
  | nil => exact fun _ => rfl
  | cons s script ih =>
      intro start
      have hcons : blocksAt start (s :: script) =
          s.linesAt start :: blocksAt (s.depthAfter start) script := List.mapIdx_cons
      rw [hcons, List.flatten_cons, ih, linesAt]

/-! ### Pushing -/

theorem Page.push_push (p : Page) (a b : String) :
    (p.push a).push b = p.push (a ++ "\n" ++ b) := by
  have hlines : indented p.depth (a ++ "\n" ++ b) = indented p.depth a ++ indented p.depth b := by
    rw [indented, Text.splitAt_append_lf, List.map_append]
    rfl
  rw [push, push, push, hlines, List.append_assoc]

/-- The line without the blanks of a depth, where it has them. -/
def outdent (depth : Nat) (line : String) : String :=
  String.ofList ((line.toList.dropPrefix? (indentation depth).toList).getD line.toList)

theorem outdent_indentLine (depth : Nat) (piece : String) :
    outdent depth (indentLine depth piece) = piece := by
  unfold outdent indentLine
  split
  · rename_i hempty
    subst hempty
    cases hdrop : "".toList.dropPrefix? (indentation depth).toList with
    | none => rfl
    | some rest =>
        obtain ⟨front, hfront, -⟩ := List.dropPrefix?_eq_some_iff.mp hdrop
        rw [Option.getD_some, (List.append_eq_nil_iff.mp hfront.symm).2]
  · rw [String.toList_append, List.dropPrefix?_append_of_beq _ (by simp), Option.getD_some,
      String.ofList_toList]

theorem joinLines_outdent_indented (depth : Nat) (text : String) :
    joinLines ((indented depth text).map (outdent depth)) = text := by
  have hback : outdent depth ∘ indentLine depth = id := funext (outdent_indentLine depth)
  rw [indented, List.map_map, hback, List.map_id, Text.joinLines_splitAt]

theorem indented_zero (text : String) : indented 0 text = Text.splitAt '\n' text := by
  have hline : indentLine 0 = id := by
    funext line
    simp [indentLine, indentation]
  rw [indented, hline, List.map_id]

theorem Page.text_ofTexts (texts : List String) : (Page.ofTexts texts).text = joinLines texts := by
  by_cases hnil : texts = []
  · subst hnil
    rfl
  · have hlines : (Page.ofTexts texts).lines = texts.flatMap (Text.splitAt '\n') := by
      rw [ofTexts, foldl_push, List.nil_append, List.flatMap_congr fun t _ => indented_zero t]
    rw [text, hlines, ← Text.splitAt_joinLines hnil, Text.joinLines_splitAt]

/-! ### Texts of scripts -/

/-- What a script writes from a starting depth, and how texts go onto pages. -/
structure WritesBlocks (start : Nat) (script : List Step) : Prop where
  blocks : ∃ blocks, Blocks start script blocks
  text : ∀ blocks, Blocks start script blocks → layout start script = joinLines blocks.flatten
  counts : ∀ depth, InForce start script depth →
    (∀ front, front <+: script → 0 ≤ start + balance front) → depth = start + balance script
  twice : ∀ (p : Page) (a b : String), (p.push a).push b = p.push (a ++ "\n" ++ b)
  readBack : ∀ (p : Page) (a : String), ∃ lines, (p.push a).lines = p.lines ++ lines ∧
    joinLines (lines.map (outdent p.depth)) = a
  collected : ∀ texts, (Page.ofTexts texts).text = joinLines texts

/-- **Texts of scripts.** From every depth and for every script, with any number of dedents anywhere,
the text is the lines of the script's blocks with line feeds between them, each block at the depth
that indents and dedents make up. Pushing two texts is pushing both as one, a pushed text is read
back from its lines, and texts that are collected are joined by line feeds. -/
theorem writesBlocks_layout (start : Nat) (script : List Step) : WritesBlocks start script where
  blocks := ⟨blocksAt start script, blocks_iff.mpr rfl⟩
  text := by
    intro blocks h
    rw [layout_eq, ← blocks_iff.mp h, flatten_blocksAt]
  counts := fun _ => InForce.eq_add_balance
  twice := Page.push_push
  readBack := fun p a => ⟨indented p.depth a, rfl, joinLines_outdent_indented p.depth a⟩
  collected := Page.text_ofTexts

example : layout 1 [.dedent, .dedent, .push "a\n\nb", .indent, .push "c", .doc "d"] =
    "a\n\nb\n    c\n    /**\n     * d\n     */" := by cbv

end RestScaffold.Target
