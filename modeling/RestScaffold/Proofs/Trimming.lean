import Mathlib.Data.List.DropRight
import RestScaffold.Text.Blank

/-! # Trimming

* `trimEnds_sublist`, `trimEnds_trimEnds`: trimming leaves a part of a text, and leaves that as it
  is;
* `Strips`, `strips_iff`: what is left when characters of one sort go from both ends, and how to
  find it;
* `Tight`, `Trims`, `trims_iff`: a tight text and the blanks that were around it;
* `TrimsMarks`, `trimsMarks_iff`: the text of a comment, with marks and blanks around it. -/

namespace RestScaffold.Text

/-! ### Ends of lists -/

theorem trimEnds_eq (p : Char → Bool) (cs : List Char) :
    trimEnds p cs = (cs.dropWhile p).rdropWhile p := rfl

theorem trimEnds_sublist (p : Char → Bool) (cs : List Char) : (trimEnds p cs).Sublist cs := by
  rw [trimEnds_eq]
  exact (List.rdropWhile_prefix p _).sublist.trans (List.dropWhile_sublist p)

theorem trimEnds_trimEnds (p : Char → Bool) (cs : List Char) :
    trimEnds p (trimEnds p cs) = trimEnds p cs := by
  have hfront : ((cs.dropWhile p).rdropWhile p).dropWhile p = (cs.dropWhile p).rdropWhile p := by
    rw [List.dropWhile_eq_self_iff]
    intro hlen
    have hprefix : (cs.dropWhile p).rdropWhile p <+: cs.dropWhile p := List.rdropWhile_prefix p _
    have hhead := hprefix.getElem hlen
    rw [hhead]
    exact List.dropWhile_get_zero_not p _ _
  rw [trimEnds_eq, trimEnds_eq, hfront, List.rdropWhile_idempotent]

theorem trim_subset (s : String) : (trim s).toList ⊆ s.toList := by
  rw [trim, String.toList_ofList]
  exact (trimEnds_sublist _ _).subset

/-- The list is what is left of the characters when those with the property go from both ends. -/
structure Strips (p : Char → Bool) (cs inner : List Char) : Prop where
  around : ∃ front back, cs = front ++ inner ++ back ∧ (∀ c ∈ front, p c = true) ∧
    ∀ c ∈ back, p c = true
  front : ∀ c rest, inner = c :: rest → p c = false
  back : ∀ c rest, inner = rest ++ [c] → p c = false

section

variable {p : Char → Bool} {cs inner : List Char}

theorem rdropWhile_append_of_pos {back : List Char} (h : ∀ c ∈ back, p c = true)
    (cs : List Char) : (cs ++ back).rdropWhile p = cs.rdropWhile p := by
  rw [List.rdropWhile, List.reverse_append,
    List.dropWhile_append_of_pos (fun c hc => h c (List.mem_reverse.mp hc)), List.rdropWhile]

theorem Strips.trimEnds_eq (h : Strips p cs inner) : trimEnds p cs = inner := by
  obtain ⟨⟨front, back, rfl, hfront, hback⟩, hfirst, hlast⟩ := h
  have hend : inner.rdropWhile p = inner := by
    rw [List.rdropWhile_eq_self_iff]
    intro hne
    simp [hlast _ _ (List.dropLast_append_getLast hne).symm]
  rw [Text.trimEnds_eq, List.append_assoc, List.dropWhile_append_of_pos hfront]
  cases inner with
  | nil =>
      rw [List.nil_append, List.dropWhile_eq_nil_iff.mpr hback]
      rfl
  | cons c rest =>
      have hc : ¬ p c = true := by simp [hfirst c rest rfl]
      rw [List.cons_append, List.dropWhile_cons_of_neg hc, ← List.cons_append,
        rdropWhile_append_of_pos hback, hend]

theorem strips_trimEnds (p : Char → Bool) (cs : List Char) : Strips p cs (trimEnds p cs) where
  around := by
    refine ⟨cs.takeWhile p, (cs.dropWhile p).rtakeWhile p, ?_, ?_, ?_⟩
    · rw [Text.trimEnds_eq, List.append_assoc, List.rdropWhile_append_rtakeWhile,
        List.takeWhile_append_dropWhile]
    · exact fun c hc => List.mem_takeWhile_imp hc
    · exact fun c hc => List.mem_rtakeWhile_imp hc
  front := by
    intro c rest h
    rw [Text.trimEnds_eq] at h
    obtain ⟨back, hback⟩ := List.rdropWhile_prefix p (l := cs.dropWhile p)
    rw [h] at hback
    simpa [← hback] using List.head?_dropWhile_not p cs
  back := by
    intro c rest h
    rw [Text.trimEnds_eq] at h
    have hne : (cs.dropWhile p).rdropWhile p ≠ [] := by simp [h]
    simpa [h] using List.rdropWhile_last_not p _ hne

/-- There is one such list for all characters, and trimming finds it. -/
theorem strips_iff : Strips p cs inner ↔ trimEnds p cs = inner := by
  constructor
  · exact Strips.trimEnds_eq
  · rintro rfl
    exact strips_trimEnds p cs

end

/-! ### Texts without blanks around them -/

/-- The text neither starts nor ends in a blank. -/
structure Tight (s : String) : Prop where
  front : ∀ c cs, s.toList = c :: cs → isBlank c = false
  back : ∀ c cs, s.toList = cs ++ [c] → isBlank c = false

theorem tight_trim (s : String) : Tight (trim s) := by
  have h := strips_trimEnds isBlank s.toList
  rw [← String.toList_ofList (l := trimEnds isBlank s.toList)] at h
  exact ⟨h.front, h.back⟩

/-- The text is what is left of the characters when the blanks around it go. -/
structure Trims (cs : List Char) (s : String) : Prop where
  around : ∃ front back, cs = front ++ s.toList ++ back ∧ (∀ c ∈ front, isBlank c = true) ∧
    ∀ c ∈ back, isBlank c = true
  tight : Tight s

theorem trims_iff_strips {cs : List Char} {s : String} :
    Trims cs s ↔ Strips isBlank cs s.toList :=
  ⟨fun h => ⟨h.around, h.tight.front, h.tight.back⟩, fun h => ⟨h.around, h.front, h.back⟩⟩

/-- Every text has one tight text in it with blanks around, and trimming finds it. -/
theorem trims_iff {cs : List Char} {s : String} :
    Trims cs s ↔ String.ofList (trimEnds isBlank cs) = s := by
  rw [trims_iff_strips, strips_iff, ← String.toList_inj, String.toList_ofList]

/-! ### Texts of comments -/

/-- The text is what is left of a comment when the slashes and stars around it go, and then the
blanks around the rest. -/
def TrimsMarks (comment text : String) : Prop :=
  ∃ rest, Strips (fun c => c == '/' || c == '*') comment.toList rest ∧ Trims rest text

theorem trimsMarks_iff {comment text : String} :
    TrimsMarks comment text ↔ trimMarks comment = text := by
  simp only [TrimsMarks, strips_iff, trims_iff, exists_eq_left', trimMarks]

end RestScaffold.Text
