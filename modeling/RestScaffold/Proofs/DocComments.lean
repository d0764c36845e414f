import RestScaffold.Proofs.Scripts
import RestScaffold.Proofs.Trimming

/-! # Documentation comments

A documentation comment ends where its block ends, whatever its text.

* `Text.breakLines`, `map_docLine_breakLines`: the lines of a text whose line feeds may have
  carriage returns in front, which the lines of a comment do not show;
* `NeverCloses`, `neverCloses_escapeCloser`: a text in which no comment can end;
* `ClosesAtEnd`: a text in which a comment ends with the text;
* `EndsFirm`: a line with no blank at its end;
* `docBlock`, `docAdded_step`: what a comment adds to a page. -/

namespace RestScaffold

namespace Text

/-! ### Line breaks of two characters -/

/-- A line without the carriage return at its end. -/
def dropReturn (line : String) : String :=
  if line.toList.getLast? = some '\r' then String.ofList line.toList.dropLast else line

/-- The lines of a text in which a line feed, or a carriage return and a line feed, ends a line.
What follows the last line feed is a line unless it is empty. -/
def breakLines (s : String) : List String :=
  (splitAt '\n' s).dropLast.map dropReturn ++
    (splitAt '\n' s).getLast?.toList.filter (· ≠ "")

theorem lines_eq (s : String) :
    lines s = (splitAt '\n' s).dropLast ++ (splitAt '\n' s).getLast?.toList.filter (· ≠ "") := by
  obtain ⟨init, last, hpieces⟩ := (List.eq_nil_or_concat _).resolve_left (splitAt_ne_nil '\n' s)
  unfold lines
  by_cases hlast : last = "" <;> simp [hpieces, hlast]

theorem unbroken_of_mem_breakLines {s line : String} (h : line ∈ breakLines s) :
    Unbroken line := by
  rcases List.mem_append.mp h with h | h
  · obtain ⟨piece, hpiece, rfl⟩ := List.mem_map.mp h
    have hunbroken := unbroken_of_mem_splitAt (List.mem_of_mem_dropLast hpiece)
    unfold dropReturn
    split
    · exact fun hmem => hunbroken (List.mem_of_mem_dropLast (by simpa using hmem))
    · exact hunbroken
  · have hlast := Option.mem_toList.mp (List.mem_of_mem_filter h)
    exact unbroken_of_mem_splitAt (List.mem_of_getLast? hlast)

theorem trim_dropReturn (line : String) : trim (dropReturn line) = trim line := by
  unfold dropReturn
  split
  · rename_i h
    obtain ⟨cs, hcs⟩ := List.getLast?_eq_some_iff.mp h
    have htrims : Trims (cs ++ ['\r']) (String.ofList (trimEnds isBlank cs)) := by
      obtain ⟨⟨front, back, heq, hfront, hback⟩, htight⟩ := trims_iff.mpr (Eq.refl
        (String.ofList (trimEnds isBlank cs)))
      refine ⟨⟨front, back ++ ['\r'], ?_, hfront, ?_⟩, htight⟩
      · rw [← List.append_assoc, ← heq]
      · exact List.forall_mem_append.mpr ⟨hback, List.forall_mem_singleton.mpr rfl⟩
    rw [trim, trim, hcs, trims_iff.mp htrims, List.dropLast_concat, String.toList_ofList]
  · rfl

end Text

namespace Target

open Text (Unbroken unbroken_append isBlank)

/-- A comment does not show the carriage returns in front of line feeds. -/
theorem map_docLine_breakLines (comment : String) :
    (Text.breakLines comment).map docLine = (Text.lines comment).map docLine := by
  have hreturn : docLine ∘ Text.dropReturn = docLine := by
    funext line
    rw [Function.comp_apply, docLine, Text.trim_dropReturn, docLine]
  rw [Text.breakLines, Text.lines_eq, List.map_append, List.map_append, List.map_map, hreturn]

/-! ### The mark that closes a comment -/

/-- No star stands in front of a slash. -/
def NeverCloses (cs : List Char) : Prop :=
  cs.IsChain fun a b => ¬ (a = '*' ∧ b = '/')

section

variable {as bs cs : List Char}

/-- Nothing closes at the seam behind characters without a star. -/
theorem NeverCloses.append_of_not_mem (h : NeverCloses bs) (ha : '*' ∉ as) :
    NeverCloses (as ++ bs) := by
  induction as with
  | nil => exact h
  | cons a as ih =>
      obtain ⟨hne, ha⟩ := not_or.mp (mt List.mem_cons.mpr ha)
      exact List.isChain_cons.mpr ⟨fun _ _ hclose => hne hclose.1.symm, ih ha⟩

/-- Nothing closes at the seam to characters that do not start with a slash. -/
theorem NeverCloses.append (h : NeverCloses as) (h' : NeverCloses bs)
    (hb : bs.head? ≠ some '/') : NeverCloses (as ++ bs) := by
  refine List.isChain_append.mpr ⟨h, h', fun a _ b hmem hclose => hb ?_⟩
  rw [← hclose.2]
  exact hmem

theorem head?_escapeCloser (cs : List Char) : (escapeCloser cs).head? = cs.head? := by
  fun_cases escapeCloser cs <;> rfl

/-- A mark that is escaped does not close, and no other arises where it was. -/
theorem neverCloses_escapeCloser (cs : List Char) : NeverCloses (escapeCloser cs) := by
  fun_induction escapeCloser cs with
  | case1 => exact List.isChain_nil
  | case2 cs ih =>
      have hseam : NeverCloses (['&', '#', '4', '7', ';'] ++ escapeCloser cs) :=
        ih.append_of_not_mem (by decide)
      exact List.isChain_cons.mpr ⟨by simp, hseam⟩
  | case3 c cs hmark ih =>
      refine List.isChain_cons.mpr ⟨fun d hd hclose => ?_, ih⟩
      rw [head?_escapeCloser, Option.mem_def, List.head?_eq_some_iff] at hd
      obtain ⟨rest, rfl⟩ := hd
      obtain ⟨rfl, rfl⟩ := hclose
      exact hmark rest rfl rfl

theorem neverCloses_docLine (line : String) : NeverCloses (docLine line).toList := by
  unfold docLine
  dsimp only
  split
  · unfold NeverCloses
    decide
  · have hshown := neverCloses_escapeCloser (Text.trim line).toList
    have hline : NeverCloses ([' ', '*'] ++ ([' '] ++ escapeCloser (Text.trim line).toList)) := by
      refine NeverCloses.append ?_ (hshown.append_of_not_mem (by decide)) (by simp)
      unfold NeverCloses
      decide
    simpa using hline

end

theorem neverCloses_joinLines : ∀ {ls : List String}, (∀ l ∈ ls, NeverCloses l.toList) →
    NeverCloses (Text.joinLines ls).toList
  | [], _ => List.isChain_nil
  | [l], h => by simpa [Text.joinLines] using h l List.mem_cons_self
  | l :: l' :: ls, h => by
      obtain ⟨hl, hrest⟩ := List.forall_mem_cons.mp h
      rw [Text.toList_joinLines_cons_cons]
      refine hl.append (List.isChain_cons.mpr ⟨by simp, neverCloses_joinLines hrest⟩) (by simp)

/-- The text ends in the mark that closes a comment, and has it nowhere else. -/
structure ClosesAtEnd (cs : List Char) : Prop where
  ends : ['*', '/'] <:+ cs
  once : ∀ before after, cs = before ++ ['*', '/'] ++ after → after = []

theorem NeverCloses.closesAtEnd {cs : List Char} (h : NeverCloses (cs ++ ['*'])) :
    ClosesAtEnd (cs ++ ['*', '/']) where
  ends := List.suffix_append cs ['*', '/']
  once := by
    intro before after heq
    rcases List.eq_nil_or_concat after with rfl | ⟨more, c, rfl⟩
    · rfl
    · -- The mark would stand in front of the last slash.
      have hcut : (cs ++ ['*']) ++ ['/'] = (before ++ '*' :: '/' :: more) ++ [c] := by
        simpa using heq
      have hfront := (List.append_inj' hcut rfl).1
      rw [hfront] at h
      exact absurd ⟨rfl, rfl⟩ (List.isChain_append_cons_cons.mp h).2.1

/-! ### The ends of lines -/

/-- The line is not empty, and its last character is no blank. -/
def EndsFirm (line : String) : Prop :=
  ∃ cs c, line.toList = cs ++ [c] ∧ isBlank c = false

theorem EndsFirm.append {line : String} (h : EndsFirm line) (front : String) :
    EndsFirm (front ++ line) := by
  obtain ⟨cs, c, hline, hc⟩ := h
  exact ⟨front.toList ++ cs, c, by simp [hline], hc⟩

/-- What is escaped ends in what it ended in, or in the last character of an escape. -/
theorem getLast?_escapeCloser {cs : List Char} {c : Char}
    (h : (escapeCloser cs).getLast? = some c) : c = ';' ∨ cs.getLast? = some c := by
  fun_induction escapeCloser cs with
  | case1 => exact Or.inr h
  | case2 cs ih =>
      simp only [List.getLast?_cons, Option.getD_some, Option.some.injEq] at h ⊢
      cases hlast : (escapeCloser cs).getLast? with
      | none => exact Or.inl (by simpa [hlast] using h.symm)
      | some d =>
          obtain rfl : d = c := by simpa [hlast] using h
          exact (ih hlast).imp_right fun hcs => by rw [hcs, Option.getD_some]
  | case3 d cs _ ih =>
      simp only [List.getLast?_cons, Option.some.injEq] at h ⊢
      cases hlast : (escapeCloser cs).getLast? with
      | none =>
          have hnil : cs = [] := by
            rw [← List.head?_eq_none_iff, ← head?_escapeCloser, List.head?_eq_none_iff]
            exact List.getLast?_eq_none_iff.mp hlast
          subst hnil
          exact Or.inr (by simpa [hlast] using h)
      | some e =>
          obtain rfl : e = c := by simpa [hlast] using h
          exact (ih hlast).imp_right fun hcs => by rw [hcs, Option.getD_some]

theorem endsFirm_docLine (line : String) : EndsFirm (docLine line) := by
  unfold docLine
  dsimp only
  split
  · exact ⟨[' '], '*', rfl, rfl⟩
  · rename_i hne
    refine EndsFirm.append ?_ " * "
    have hshown : escapeCloser (Text.trim line).toList ≠ [] := by
      rintro hnil
      exact hne (by rw [hnil])
    obtain ⟨c, hc⟩ := Option.isSome_iff_exists.mp (List.getLast?_isSome.mpr hshown)
    obtain ⟨cs, hcs⟩ := List.getLast?_eq_some_iff.mp hc
    refine ⟨cs, c, by rw [String.toList_ofList, hcs], ?_⟩
    rcases getLast?_escapeCloser hc with rfl | hlast
    · rfl
    · obtain ⟨front, hfront⟩ := List.getLast?_eq_some_iff.mp hlast
      exact (Text.tight_trim line).back c front hfront

/-! ### Blocks -/

/-- The lines of a comment at a depth: one that opens it, one for each line of its text, and one
that closes it. -/
def docBlock (depth : Nat) (comment : String) : List String :=
  (indentation depth ++ "/**") ::
    (Text.breakLines comment).map (fun line => indentation depth ++ docLine line) ++
    [indentation depth ++ " */"]

theorem flatMap_docLines {comment : String} (h : comment ≠ "") (depth : Nat) :
    (docLines comment).flatMap (indented depth) = docBlock depth comment := by
  have hlines : (Text.breakLines comment).map (fun line => indentation depth ++ docLine line) =
      ((Text.lines comment).map docLine).map (indentation depth ++ ·) := by
    rw [← map_docLine_breakLines, List.map_map]
    rfl
  rw [linesAt_docLines, docLines, if_neg h, docBlock, hlines]
  simp

theorem star_not_mem_indentation (depth : Nat) : '*' ∉ (indentation depth).toList := by
  simp [indentation]

theorem toList_joinLines_concat_append (ls : List String) (l t : String) :
    (Text.joinLines (ls ++ [l ++ t])).toList = (Text.joinLines (ls ++ [l])).toList ++ t.toList := by
  induction ls with
  | nil => simp [Text.joinLines]
  | cons first ls ih =>
      rw [List.cons_append, List.cons_append, Text.toList_joinLines_cons (by simp),
        Text.toList_joinLines_cons (by simp), ih]
      simp

theorem closesAtEnd_docBlock (depth : Nat) (comment : String) :
    ClosesAtEnd (Text.joinLines (docBlock depth comment)).toList := by
  have hindented : ∀ l : String, NeverCloses l.toList →
      NeverCloses (indentation depth ++ l).toList := by
    intro l hl
    rw [String.toList_append]
    exact hl.append_of_not_mem (star_not_mem_indentation depth)
  -- The block less its last slash is a row of lines that do not close.
  set front := (indentation depth ++ "/**") ::
    (Text.breakLines comment).map (fun line => indentation depth ++ docLine line) with hfront
  have hopen : ∀ l ∈ front ++ [indentation depth ++ " *"], NeverCloses l.toList := by
    rw [hfront, List.forall_mem_append, List.forall_mem_cons, List.forall_mem_map,
      List.forall_mem_singleton]
    refine ⟨⟨hindented _ ?_, fun line _ => hindented _ (neverCloses_docLine line)⟩, hindented _ ?_⟩
    · unfold NeverCloses
      decide
    · unfold NeverCloses
      decide
  have hstar : indentation depth ++ " *" = (indentation depth ++ " ") ++ "*" := by
    rw [String.append_assoc]
    rfl
  have hclose : indentation depth ++ " */" = (indentation depth ++ " ") ++ "*/" := by
    rw [String.append_assoc]
    rfl
  have hnever := neverCloses_joinLines hopen
  rw [hstar, toList_joinLines_concat_append] at hnever
  rw [docBlock, ← hfront, hclose, toList_joinLines_concat_append]
  exact hnever.closesAtEnd

theorem endsFirm_of_mem_docBlock {depth : Nat} {comment l : String}
    (h : l ∈ docBlock depth comment) : EndsFirm l := by
  rcases List.mem_append.mp h with h | h
  · rcases List.mem_cons.mp h with rfl | h
    · exact EndsFirm.append ⟨['/', '*'], '*', rfl, rfl⟩ _
    · obtain ⟨line, -, rfl⟩ := List.mem_map.mp h
      exact (endsFirm_docLine line).append _
  · obtain rfl := List.mem_singleton.mp h
    exact EndsFirm.append ⟨[' ', '*'], '/', rfl, rfl⟩ _

theorem unbroken_of_mem_docBlock {depth : Nat} {comment l : String}
    (h : l ∈ docBlock depth comment) : Unbroken l := by
  have hblanks : Unbroken (indentation depth) := by simp [Unbroken, indentation]
  rcases List.mem_append.mp h with h | h
  · rcases List.mem_cons.mp h with rfl | h
    · exact unbroken_append.mpr ⟨hblanks, by decide⟩
    · obtain ⟨line, hline, rfl⟩ := List.mem_map.mp h
      exact unbroken_append.mpr ⟨hblanks, unbroken_docLine (Text.unbroken_of_mem_breakLines hline)⟩
  · obtain rfl := List.mem_singleton.mp h
    exact unbroken_append.mpr ⟨hblanks, by decide⟩

/-- What a comment adds to a page: nothing when it is empty, else its block, in which no comment
ends before the block does. -/
structure DocAdded (comment : String) (p q : Page) : Prop where
  depth : q.depth = p.depth
  unchanged : comment = "" → q = p
  lines : comment ≠ "" → q.lines = p.lines ++ docBlock p.depth comment
  closes : ClosesAtEnd (Text.joinLines (docBlock p.depth comment)).toList
  unbroken : ∀ l ∈ docBlock p.depth comment, Unbroken l
  firm : ∀ l ∈ docBlock p.depth comment, EndsFirm l

/-- **Comments on a page.** On every page and for every text, a documentation comment adds its block
at the depth in force, and nothing else changes: the mark that closes a comment stands at the end of
the block and nowhere else, and each line of the block ends in a character that is no blank. -/
theorem docAdded_step (p : Page) (comment : String) :
    DocAdded comment p (p.step (.doc comment)) := by
  have hstep : p.step (.doc comment) =
      ⟨p.lines ++ (docLines comment).flatMap (indented p.depth), p.depth⟩ := Page.step_eq p _
  refine
    { depth := by rw [hstep]
      unchanged := fun hempty => ?_
      lines := fun hne => by rw [hstep, flatMap_docLines hne]
      closes := closesAtEnd_docBlock p.depth comment
      unbroken := fun _ => unbroken_of_mem_docBlock
      firm := fun _ => endsFirm_of_mem_docBlock }
  rw [hstep, docLines, if_pos hempty, List.flatMap_nil, List.append_nil]

end Target

end RestScaffold
