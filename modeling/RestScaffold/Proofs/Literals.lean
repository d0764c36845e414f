import RestScaffold.Target.Literal

/-! # Reading literals

A string literal is read from its opening quote to the first quote that no backslash escapes. What
stands between is taken as it is but for escapes, and lines cannot end there.

* `escapeAt`: the character that an escape is for;
* `readLiteral`: the text of a literal and what follows it;
* `readLiteral_quote`: the literal of a text reads as the text;
* `readLiteral_verbatim_iff`: a text without its escapes reads as itself only if it needs none. -/

namespace RestScaffold.Target

/-! ### Escapes -/

/-- The escapes of one character, and what they are for. -/
def simpleEscapes : List (Char × Char) :=
  [('b', '\x08'), ('s', ' '), ('t', '\t'), ('n', '\n'), ('f', '\x0c'), ('r', '\r'), ('"', '"'),
   ('\'', '\''), ('\\', '\\')]

def isOctalDigit (c : Char) : Bool :=
  '0' ≤ c && c ≤ '7'

/-- The code of an octal escape. -/
def octalValue (digits : List Char) : Nat :=
  digits.foldl (fun n c => 8 * n + (c.toNat - '0'.toNat)) 0

/-- The digits at the front that belong to an octal escape, as many as possible up to `377`. -/
def octalDigits (cs : List Char) : List Char :=
  (cs.takeWhile isOctalDigit).take (if cs.head?.all (· ≤ '3') then 3 else 2)

/-- The character of the escape behind a backslash, and how many characters it is written in.
Escapes for code points are not among them; they are replaced before literals are read. -/
def escapeAt (cs : List Char) : Option (Char × Nat) :=
  match cs.head?.bind fun c => simpleEscapes.lookup c with
  | some escaped => some (escaped, 1)
  | none =>
    if octalDigits cs = [] then none
    else some (Char.ofNat (octalValue (octalDigits cs)), (octalDigits cs).length)

theorem escapeAt_pos {cs : List Char} {escaped : Char} {n : Nat}
    (h : escapeAt cs = some (escaped, n)) : 0 < n := by
  unfold escapeAt at h
  split at h
  · obtain ⟨-, rfl⟩ := Prod.mk.inj (Option.some.inj h)
    exact Nat.one_pos
  · split at h
    · exact absurd h (by simp)
    · rename_i hdigits
      obtain ⟨-, rfl⟩ := Prod.mk.inj (Option.some.inj h)
      exact List.length_pos_iff.mpr hdigits

example : escapeAt ['1', '0', '1', '1'] = some ('A', 3) ∧ escapeAt ['4', '7', '7'] = some ('\'', 2) ∧
    escapeAt ['u', '0', '0', '4', '1'] = none := by
  decide

/-! ### Literals -/

/-- The character stands for itself in a literal. -/
def StandsForItself (c : Char) : Prop :=
  c ∉ ['"', '\\', '\n', '\r']

instance : DecidablePred StandsForItself :=
  fun _ => inferInstanceAs (Decidable (_ ∉ _))

/-- What is read behind the opening quote of a literal, less the given number of characters, which
belong to an escape that was read: the text up to the closing quote and what follows. -/
def readFrom : Nat → List Char → Option (List Char × List Char)
  | _, [] => none
  | skip + 1, _ :: cs => readFrom skip cs
  | 0, c :: cs =>
    if c = '"' then some ([], cs)
    else if c = '\n' ∨ c = '\r' then none
    else if c = '\\' then
      match escapeAt cs with
      | some (escaped, n) => (readFrom n cs).map fun read => (escaped :: read.1, read.2)
      | none => none
    else (readFrom 0 cs).map fun read => (c :: read.1, read.2)

/-- The text of a literal and what follows, from what stands behind the opening quote. -/
def readLiteral (cs : List Char) : Option (List Char × List Char) :=
  readFrom 0 cs

section

variable {c : Char} {cs text back : List Char}

theorem readFrom_quote : readFrom 0 ('"' :: cs) = some ([], cs) := by
  simp [readFrom]

theorem readFrom_of_standsForItself (h : StandsForItself c) :
    readFrom 0 (c :: cs) = (readFrom 0 cs).map fun read => (c :: read.1, read.2) := by
  simp only [StandsForItself, List.mem_cons, not_or, List.not_mem_nil, not_false_eq_true,
    and_true] at h
  obtain ⟨hquote, hback, hline, hreturn⟩ := h
  simp [readFrom, hquote, hback, hline, hreturn]

theorem readFrom_escapeChar (c : Char) (cs : List Char) :
    readFrom 0 (escapeChar c ++ cs) =
      (readFrom 0 cs).map fun read => (c :: read.1, read.2) := by
  unfold escapeChar
  split
  · rfl
  · rfl
  · rfl
  · rfl
  · rfl
  · rename_i hquote hback hline hreturn htab
    refine readFrom_of_standsForItself ?_
    simp only [StandsForItself, List.mem_cons, List.not_mem_nil, or_false]
    rintro (h | h | h | h)
    · exact hquote h
    · exact hback h
    · exact hline h
    · exact hreturn h

/-- **Literals are read back.** The literal of a text reads as the text, whatever follows it. -/
theorem readLiteral_quote (s : String) (back : List Char) :
    ∃ argument, (quote s).toList ++ back = '"' :: argument ∧
      readLiteral argument = some (s.toList, back) := by
  refine ⟨s.toList.flatMap escapeChar ++ '"' :: back, by simp [quote], ?_⟩
  rw [readLiteral]
  induction s.toList with
  | nil => exact readFrom_quote
  | cons c cs ih =>
      rw [List.flatMap_cons, List.append_assoc, readFrom_escapeChar, ih]
      rfl

/-- A literal is at least as long as its text and the characters that are skipped. If it is not
longer, no escape is in it. -/
theorem exists_taken_of_readFrom {skip : Nat} (h : readFrom skip cs = some (text, back)) :
    ∃ taken, cs = taken ++ '"' :: back ∧ text.length + skip ≤ taken.length ∧
      (text.length + skip = taken.length → ∀ c ∈ text, StandsForItself c) := by
  induction cs generalizing skip text with
  | nil => simp [readFrom] at h
  | cons c cs ih =>
      match skip with
      | skip + 1 =>
          rw [readFrom] at h
          obtain ⟨taken, rfl, hlen, hplain⟩ := ih h
          refine ⟨c :: taken, rfl, ?_, fun heq => hplain ?_⟩
          · rw [List.length_cons]
            omega
          · rw [List.length_cons] at heq
            omega
      | 0 =>
          rw [readFrom] at h
          split at h
          · rename_i hquote
            obtain ⟨rfl, rfl⟩ := Prod.mk.inj (Option.some.inj h)
            exact ⟨[], by rw [hquote, List.nil_append], Nat.le_refl _, by simp⟩
          · rename_i hquote
            split at h
            · exact absurd h (by simp)
            · rename_i hline
              split at h
              · -- An escape is longer than the character it is for.
                split at h
                · rename_i escaped n hescape
                  obtain ⟨read, hread, hsome⟩ := Option.map_eq_some_iff.mp h
                  obtain ⟨rfl, rfl⟩ := Prod.mk.inj hsome
                  have hpos : 0 < n := escapeAt_pos hescape
                  obtain ⟨taken, rfl, hlen, -⟩ := ih hread
                  refine ⟨c :: taken, rfl, ?_, fun heq => ?_⟩
                  · rw [List.length_cons, List.length_cons]
                    omega
                  · rw [List.length_cons, List.length_cons] at heq
                    omega
                · exact absurd h (by simp)
              · rename_i hback
                obtain ⟨read, hread, hsome⟩ := Option.map_eq_some_iff.mp h
                obtain ⟨rfl, rfl⟩ := Prod.mk.inj hsome
                obtain ⟨taken, rfl, hlen, hplain⟩ := ih hread
                have hc : StandsForItself c := by
                  simp [StandsForItself, hquote, hback, not_or.mp hline]
                refine ⟨c :: taken, rfl, Nat.succ_le_succ hlen, fun heq => ?_⟩
                exact List.forall_mem_cons.mpr ⟨hc, hplain (Nat.succ.inj heq)⟩

theorem readLiteral_verbatim (h : ∀ c ∈ text, StandsForItself c) (back : List Char) :
    readLiteral (text ++ '"' :: back) = some (text, back) := by
  rw [readLiteral]
  induction text with
  | nil => exact readFrom_quote
  | cons c text ih =>
      obtain ⟨hc, htext⟩ := List.forall_mem_cons.mp h
      rw [List.cons_append, readFrom_of_standsForItself hc, ih htext]
      rfl

/-- **Escapes are needed.** A text that stands between quotes as it is, with no quote behind the
closing one, reads as itself if and only if none of its characters needs an escape. -/
theorem readLiteral_verbatim_iff {rest : List Char} (hrest : '"' ∉ rest) :
    readLiteral (text ++ '"' :: rest) = some (text, back) ↔
      back = rest ∧ ∀ c ∈ text, StandsForItself c := by
  constructor
  · intro h
    obtain ⟨taken, htaken, hlen, hplain⟩ := exists_taken_of_readFrom h
    rw [Nat.add_zero] at hlen hplain
    have htext : text = taken := by
      rcases List.append_eq_append_iff.mp htaken with ⟨more, rfl, hmore⟩ | ⟨more, rfl, hmore⟩
      · cases more with
        | nil => rw [List.append_nil]
        | cons c more =>
            rw [(List.cons.inj hmore).2] at hrest
            exact absurd (by simp) hrest
      · obtain rfl : more = [] := by
          rw [List.length_append] at hlen
          exact List.length_eq_zero_iff.mp (by omega)
        rw [List.append_nil]
    subst htext
    exact ⟨(List.cons.inj (List.append_cancel_left htaken)).2.symm, hplain rfl⟩
  · rintro ⟨rfl, h⟩
    exact readLiteral_verbatim h back

end

end RestScaffold.Target
