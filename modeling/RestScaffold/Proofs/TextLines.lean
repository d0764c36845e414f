import Mathlib.Data.List.Chain
import RestScaffold.Proofs.Sequencing
import RestScaffold.Naming
import RestScaffold.Text.LetterCase
import RestScaffold.Text.Lines

/-! # Lines of texts

* `Unbroken`: a text without a line feed;
* `unbroken_upper`, `unbroken_upperFirst`: letter case brings none in;
* `splitAt_append_lf`, `splitAt_joinLines`: the lines of texts that are put together;
* `joinLines_splitAt`: a text is its lines, joined;
* `Spaced`, `spaced_flatMap`, `splitOn_flatMap`: blocks of lines with one empty line in front of
  each. -/

namespace RestScaffold.Text

/-! ### Texts that no line feed breaks -/

/-- The text has no line feed. -/
def Unbroken (s : String) : Prop :=
  '\n' ∉ s.toList

instance : DecidablePred Unbroken :=
  fun s => inferInstanceAs (Decidable ('\n' ∉ s.toList))

section

variable {s t : String}

theorem unbroken_append : Unbroken (s ++ t) ↔ Unbroken s ∧ Unbroken t := by
  simp [Unbroken]

theorem Unbroken.between {before after : String} (h : Unbroken s) (hbefore : Unbroken before)
    (hafter : Unbroken after) : Unbroken (before ++ s ++ after) :=
  unbroken_append.mpr ⟨unbroken_append.mpr ⟨hbefore, h⟩, hafter⟩

theorem unbroken_of_isAlphanum (h : ∀ c ∈ s.toList, c.isAlphanum) : Unbroken s :=
  fun hmem => absurd (h _ hmem) (by decide)

theorem Unbroken.qualify (hs : Unbroken s) (ht : Unbroken t) : Unbroken (Naming.qualify s t) := by
  unfold Naming.qualify
  split
  · exact ht
  · have hdot : Unbroken "." := by decide
    exact hdot.between hs ht

theorem unbroken_toString (i : Int) : Unbroken (toString i) := by
  have hdigits : ∀ n : Nat, '\n' ∉ n.repr.toList := by
    intro n hmem
    rw [Nat.toList_repr] at hmem
    exact absurd (Nat.isDigit_of_mem_toDigits (by decide) (by decide) hmem) (by decide)
  rw [Unbroken, Int.toString_eq_repr, Int.repr_eq_if]
  split
  · exact hdigits _
  · simpa using hdigits _

theorem eq_of_ofNat_eq_lf {n : Nat} (h : Char.ofNat n = '\n') : n = 10 := by
  by_cases hn : n.isValidChar
  · rw [Char.ofNat, dif_pos hn] at h
    exact congrArg Char.toNat h
  · rw [Char.ofNat, dif_neg hn] at h
    exact absurd h (by decide)

/-- No letter beyond ASCII has a line feed for its partner in upper case. -/
theorem lf_not_mem_mapCase {c : Char} (h : c ≠ '\n') :
    '\n' ∉ mapCase upperRuns upperExpansions c := by
  have hruns : ∀ r ∈ upperRuns, 10 < r.first + r.shift := by decide +kernel
  have hexpansions : ∀ p ∈ upperExpansions, 10 ∉ p.2 := by decide +kernel
  unfold mapCase
  split
  · rename_i targets htargets
    intro hmem
    obtain ⟨n, hn, heq⟩ := List.mem_map.mp hmem
    obtain rfl := eq_of_ofNat_eq_lf heq
    exact hexpansions _ (mem_of_lookup_eq_some htargets) hn
  · split
    · rename_i run hrun
      intro hmem
      have hn := eq_of_ofNat_eq_lf (List.mem_singleton.mp hmem).symm
      have hfirst := hruns run (List.mem_of_find?_eq_some hrun)
      have hcovers := List.find?_some hrun
      simp only [CaseRun.covers, Bool.and_eq_true, decide_eq_true_eq] at hcovers
      omega
    · simpa using h.symm

theorem lf_not_mem_upperChar {c : Char} (h : c ≠ '\n') : '\n' ∉ upperChar c := by
  have hascii : ∀ n < 128, Char.ofNat n ≠ '\n' → '\n' ≠ (Char.ofNat n).toUpper := by
    decide +kernel
  unfold upperChar
  split
  · rename_i hc
    have hupper := hascii c.toNat hc
    rw [Char.ofNat_toNat] at hupper
    simpa using hupper h
  · exact lf_not_mem_mapCase h

theorem unbroken_upper (h : Unbroken s) : Unbroken (upper s) := by
  intro hmem
  rw [upper, String.toList_ofList] at hmem
  obtain ⟨c, hc, hlf⟩ := List.mem_flatMap.mp hmem
  exact lf_not_mem_upperChar (ne_of_mem_of_not_mem hc h) hlf

theorem unbroken_upperFirst (h : Unbroken s) : Unbroken (upperFirst s) := by
  intro hmem
  rw [upperFirst, String.toList_ofList] at hmem
  unfold Unbroken at h
  cases hs : s.toList with
  | nil => simp [hs, onFirst] at hmem
  | cons c cs =>
      rw [hs, List.mem_cons, not_or] at h
      rw [hs, onFirst, List.mem_append] at hmem
      rcases hmem with hlf | hlf
      · exact lf_not_mem_upperChar (Ne.symm h.1) hlf
      · exact h.2 hlf

end

/-! ### Lines of a text -/

theorem splitAt_ne_nil (sep : Char) (s : String) : splitAt sep s ≠ [] := by
  simp [splitAt, List.splitOn_ne_nil]

theorem unbroken_of_mem_splitAt {s line : String} (h : line ∈ splitAt '\n' s) :
    Unbroken line := by
  obtain ⟨cs, hcs, rfl⟩ := List.mem_map.mp h
  rw [Unbroken, String.toList_ofList]
  exact (splitOn_eq_iff.mp rfl).2.1 cs hcs

theorem Unbroken.splitAt {s : String} (h : Unbroken s) : Text.splitAt '\n' s = [s] := by
  have hpieces : s.toList.splitOn '\n' = [s.toList] :=
    splitOn_eq_iff.mpr
      ⟨List.cons_ne_nil _ _, by simpa [Unbroken] using h, List.intercalate_singleton⟩
  rw [Text.splitAt, hpieces, List.map_singleton, String.ofList_toList]

theorem splitAt_append_lf (s t : String) :
    splitAt '\n' (s ++ "\n" ++ t) = splitAt '\n' s ++ splitAt '\n' t := by
  have hlist : (s ++ "\n" ++ t).toList = s.toList ++ '\n' :: t.toList := by
    simp
  simp only [splitAt, hlist, List.splitOn_eq_splitOnP]
  rw [List.splitOnP_append_cons _ _ (by simp), List.map_append]

theorem splitAt_joinLines : ∀ {ts : List String}, ts ≠ [] →
    splitAt '\n' (joinLines ts) = ts.flatMap (splitAt '\n')
  | [t], _ => by simp [joinLines]
  | t :: t' :: ts, _ => by
      have hjoin : joinLines (t :: t' :: ts) = t ++ "\n" ++ joinLines (t' :: ts) :=
        String.intercalate_cons_cons
      rw [hjoin, splitAt_append_lf, splitAt_joinLines (List.cons_ne_nil t' ts),
        ← List.flatMap_cons]

theorem joinLines_splitAt (s : String) : joinLines (splitAt '\n' s) = s := by
  have hpieces : ['\n'].intercalate (s.toList.splitOn '\n') = s.toList :=
    List.intercalate_splitOn '\n'
  have hback : String.toList ∘ String.ofList = id := funext fun _ => String.toList_ofList
  rw [← String.toList_inj, joinLines, String.toList_intercalate, splitAt, List.map_map, hback,
    List.map_id]
  exact hpieces

/-- Texts without line feeds are the lines of the text that they are joined to. -/
theorem splitAt_joinLines_of_unbroken {ls : List String} (hne : ls ≠ [])
    (h : ∀ l ∈ ls, Unbroken l) : splitAt '\n' (joinLines ls) = ls := by
  rw [splitAt_joinLines hne, List.flatMap_congr fun l hl => (h l hl).splitAt,
    List.flatMap_singleton']

/-! ### Empty lines -/

/-- No two empty lines stand next to each other. -/
def Spaced (ls : List String) : Prop :=
  ls.IsChain fun l l' => l ≠ "" ∨ l' ≠ ""

theorem Spaced.of_cons {l : String} {ls : List String} (h : Spaced (l :: ls)) : Spaced ls :=
  List.IsChain.tail h

theorem spaced_of_not_mem : ∀ {ls : List String}, "" ∉ ls → Spaced ls
  | [], _ => List.isChain_nil
  | l :: ls, h => by
      rw [List.mem_cons, not_or] at h
      exact (spaced_of_not_mem h.2).cons fun _ _ => Or.inl (Ne.symm h.1)

/-- Blocks that each follow an empty line are spaced, if no empty line is in them. -/
theorem spaced_flatMap {blocks : List (List String)}
    (h : ∀ block ∈ blocks, block ≠ [] ∧ "" ∉ block) :
    Spaced (blocks.flatMap ([""] ++ ·)) := by
  induction blocks with
  | nil => exact List.isChain_nil
  | cons block blocks ih =>
      obtain ⟨⟨hne, hblank⟩, hrest⟩ := List.forall_mem_cons.mp h
      have hfirst : Spaced ([""] ++ block) := by
        refine (spaced_of_not_mem hblank).cons fun l hl => Or.inr ?_
        exact ne_of_mem_of_not_mem (List.mem_of_head? hl) hblank
      refine List.IsChain.append hfirst (ih hrest) fun l hl _ _ => Or.inl ?_
      rw [List.getLast?_append_of_ne_nil _ hne] at hl
      exact ne_of_mem_of_not_mem (List.mem_of_getLast? hl) hblank

/-- Cutting at empty lines finds the blocks. -/
theorem splitOn_flatMap {blocks : List (List String)} (h : ∀ block ∈ blocks, "" ∉ block) :
    (blocks.flatMap ([""] ++ ·)).splitOn "" = [] :: blocks := by
  refine splitOn_eq_iff.mpr ⟨List.cons_ne_nil _ _, ?_, intercalate_cons [""] [] blocks⟩
  rintro block (_ | ⟨_, hmem⟩)
  · exact List.not_mem_nil
  · exact h block hmem

theorem cons_splitAt_intercalate : ∀ {ts : List String}, ts ≠ [] →
    "" :: splitAt '\n' ("\n\n".intercalate ts) = ts.flatMap fun t => "" :: splitAt '\n' t
  | [t], _ => by simp
  | t :: t' :: ts, _ => by
      have hjoin : "\n\n".intercalate (t :: t' :: ts) =
          t ++ "\n" ++ ("" ++ "\n" ++ "\n\n".intercalate (t' :: ts)) := by
        rw [String.intercalate_cons_cons]
        simp [← String.toList_inj]
      rw [hjoin, splitAt_append_lf, splitAt_append_lf, List.flatMap_cons,
        ← cons_splitAt_intercalate (List.cons_ne_nil t' ts)]
      rfl

end RestScaffold.Text
