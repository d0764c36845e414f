import RestScaffold.Proofs.PathMapping

/-! # The expression for groups

The groups of a path are what the expression `\{([a-z.0-9_\s]*)=?([^{}]*)\}` finds in it, in letters
of either case. The expression is searched from left to right, and of the ways in which it matches
at one place the one counts that takes the most in the first repetition where they differ.

* `Expression.ways`: the ways in which an expression matches at the front of a text, the one that
  counts first;
* `scan`: a text as the characters outside the matches and what the matches keep;
* `scan_groupExpression`: the matches in a path are its groups, and they keep names and patterns. -/

namespace RestScaffold.PathTemplate

/-! ### Expressions -/

/-- An expression for texts. -/
inductive Expression where
  /-- One character of a class. -/
  | one (p : Char → Bool)
  /-- As many characters of a class as possible. -/
  | many (p : Char → Bool)
  /-- One character of a class if possible. -/
  | option (p : Char → Bool)
  /-- The text of the expression is kept. -/
  | keep (e : Expression)
  | next (e f : Expression)

/-- A match at the front of a text: what it takes, what it keeps of that, and what it leaves. -/
structure Match where
  text : List Char
  kept : List (List Char)
  rest : List Char

/-- The match of one character. -/
def oneWay (p : Char → Bool) : List Char → List Match
  | [] => []
  | c :: cs => if p c then [⟨[c], [], cs⟩] else []

/-- The matches of any number of characters, the longest first. -/
def manyWays (p : Char → Bool) : List Char → List Match
  | [] => [⟨[], [], []⟩]
  | c :: cs =>
    (if p c then (manyWays p cs).map fun m => { m with text := c :: m.text } else []) ++
      [⟨[], [], c :: cs⟩]

/-- The ways in which an expression matches at the front of a text, in the order in which they are
tried. -/
def Expression.ways : Expression → List Char → List Match
  | .one p, cs => oneWay p cs
  | .many p, cs => manyWays p cs
  | .option p, cs => oneWay p cs ++ [⟨[], [], cs⟩]
  | .keep e, cs => (e.ways cs).map fun m => { m with kept := m.text :: m.kept }
  | .next e f, cs => (e.ways cs).flatMap fun m => (f.ways m.rest).map fun n =>
      ⟨m.text ++ n.text, m.kept ++ n.kept, n.rest⟩

/-- A piece of a text that was searched. -/
inductive Piece where
  /-- A character outside the matches. -/
  | plain (c : Char)
  /-- What a match kept. -/
  | found (kept : List (List Char))
deriving DecidableEq

/-- Searches a text from left to right. The search goes on behind each match; one that takes nothing
is passed over. -/
def scan (e : Expression) : List Char → List Piece
  | [] => []
  | c :: cs =>
    match (e.ways (c :: cs)).head? with
    | some m =>
      if m.rest.length ≤ cs.length then .found m.kept :: scan e m.rest
      else .plain c :: scan e cs
    | none => .plain c :: scan e cs
termination_by cs => cs.length
decreasing_by
  all_goals simp only [List.length_cons]
  all_goals omega

/-! ### First matches -/

/-- The first match at the front of a text keeps and leaves what is said. -/
def Expression.Finds (e : Expression) (cs : List Char) (kept : List (List Char))
    (rest : List Char) : Prop :=
  ∃ text, (e.ways cs).head? = some ⟨text, kept, rest⟩

section

variable {p : Char → Bool} {e f : Expression} {cs rest : List Char} {kept kept' : List (List Char)}

theorem scan_of_finds {c : Char} (h : e.Finds (c :: cs) kept rest)
    (hlen : rest.length ≤ cs.length) : scan e (c :: cs) = .found kept :: scan e rest := by
  obtain ⟨text, hfirst⟩ := h
  rw [scan, hfirst]
  exact if_pos hlen

theorem scan_of_ways_eq_nil {c : Char} (h : e.ways (c :: cs) = []) :
    scan e (c :: cs) = .plain c :: scan e cs := by
  rw [scan, h]
  rfl

/-- What matches first behind a first match is part of the first match of both. -/
theorem Expression.Finds.next {middle : List Char} (he : e.Finds cs kept middle)
    (hf : f.Finds middle kept' rest) : (e.next f).Finds cs (kept ++ kept') rest := by
  obtain ⟨text, he⟩ := he
  obtain ⟨text', hf⟩ := hf
  refine ⟨text ++ text', ?_⟩
  rw [ways, List.head?_flatMap]
  cases hways : e.ways cs with
  | nil => simp [hways] at he
  | cons m ms =>
      obtain rfl : m = ⟨text, kept, middle⟩ := by simpa [hways] using he
      simp [hf]

theorem Expression.ways_next_eq_nil :
    (e.next f).ways cs = [] ↔ ∀ m ∈ e.ways cs, f.ways m.rest = [] := by
  simp [ways]

theorem finds_one {c : Char} (hc : p c = true) : (Expression.one p).Finds (c :: cs) [] cs :=
  ⟨[c], by simp [Expression.ways, oneWay, hc]⟩

/-- A repetition takes the longest run first. -/
theorem head?_manyWays (p : Char → Bool) : ∀ cs : List Char,
    (manyWays p cs).head? = some ⟨cs.takeWhile p, [], cs.dropWhile p⟩
  | [] => rfl
  | c :: cs => by
      cases hc : p c with
      | false => simp [manyWays, hc]
      | true => simp [manyWays, hc, head?_manyWays p cs]

theorem finds_option {c : Char} (hc : p c = true) : (Expression.option p).Finds (c :: cs) [] cs :=
  ⟨[c], by simp [Expression.ways, oneWay, hc]⟩

theorem finds_option_of_neg {c : Char} (hc : ¬ p c = true) :
    (Expression.option p).Finds (c :: cs) [] (c :: cs) :=
  ⟨[], by simp [Expression.ways, oneWay, hc]⟩

theorem finds_keep_many (p : Char → Bool) (cs : List Char) :
    (Expression.keep (.many p)).Finds cs [cs.takeWhile p] (cs.dropWhile p) :=
  ⟨cs.takeWhile p, by simp [Expression.ways, head?_manyWays]⟩

theorem eq_append_of_mem_manyWays {m : Match} : ∀ {cs : List Char}, m ∈ manyWays p cs →
    cs = m.text ++ m.rest ∧ ∀ c ∈ m.text, p c = true
  | [], h => by
      obtain rfl := List.mem_singleton.mp h
      simp
  | c :: cs, h => by
      rcases List.mem_append.mp h with h | h
      · cases hc : p c with
        | false => simp [hc] at h
        | true =>
            rw [hc, if_pos rfl] at h
            obtain ⟨n, hn, rfl⟩ := List.mem_map.mp h
            obtain ⟨rfl, htext⟩ := eq_append_of_mem_manyWays hn
            exact ⟨rfl, List.forall_mem_cons.mpr ⟨hc, htext⟩⟩
      · obtain rfl := List.mem_singleton.mp h
        simp

end

/-! ### The expression for groups -/

/-- What stands behind a name: an equals sign if there is one, the pattern and the brace that
closes the group. -/
def closing : Expression :=
  .next (.option (· == '=')) (.next (.keep (.many notBrace)) (.one (· == '}')))

/-- The expression for groups. -/
def groupExpression : Expression :=
  .next (.one (· == '{')) (.next (.keep (.many isNameChar)) closing)

/-- What is left of a text without an equals sign at its front. -/
def afterEquals : List Char → List Char
  | '=' :: cs => cs
  | cs => cs

theorem groupPattern_eq (content : List Char) :
    groupPattern content = afterEquals (content.dropWhile isNameChar) := rfl

/-- What the search makes of a segment: it keeps the name, with its blanks, and the pattern of a
group. -/
def Segment.piece : Segment → Piece
  | .plain c => .plain c
  | .group content => .found [content.takeWhile isNameChar, groupPattern content]

/-! ### Groups are found -/

section

variable {back content cs : List Char}

theorem finds_toBrace (h : ∀ c ∈ back, notBrace c = true) (rest : List Char) :
    (Expression.next (.keep (.many notBrace)) (.one (· == '}'))).Finds (back ++ '}' :: rest)
      [back] rest := by
  have hrun : (Expression.keep (.many notBrace)).Finds (back ++ '}' :: rest) [back]
      ('}' :: rest) := by
    have hfirst := finds_keep_many notBrace (back ++ '}' :: rest)
    rwa [takeWhile_content h, dropWhile_content h] at hfirst
  exact hrun.next (finds_one (by decide))

theorem finds_closing (h : ∀ c ∈ back, notBrace c = true) (rest : List Char) :
    closing.Finds (back ++ '}' :: rest) [afterEquals back] rest := by
  match back, h with
  | [], h => exact (finds_option_of_neg (by decide)).next (finds_toBrace h rest)
  | c :: back, h =>
      by_cases hc : c = '='
      · subst hc
        exact (finds_option (by decide)).next
          (finds_toBrace (fun c hc => h c (List.mem_cons_of_mem _ hc)) rest)
      · have hall : afterEquals (c :: back) = c :: back := by
          unfold afterEquals
          split
          · rename_i heq
            exact absurd (List.cons.inj heq).1 hc
          · rfl
        rw [hall]
        exact (finds_option_of_neg (by simpa using hc)).next (finds_toBrace h rest)

theorem takeWhile_isNameChar (content rest : List Char) :
    (content ++ '}' :: rest).takeWhile isNameChar = content.takeWhile isNameChar := by
  induction content with
  | nil => exact List.takeWhile_cons_of_neg (by decide)
  | cons c content ih => rw [List.cons_append, List.takeWhile_cons, List.takeWhile_cons, ih]

theorem dropWhile_isNameChar (content rest : List Char) :
    (content ++ '}' :: rest).dropWhile isNameChar =
      content.dropWhile isNameChar ++ '}' :: rest := by
  induction content with
  | nil => exact List.dropWhile_cons_of_neg (by decide)
  | cons c content ih =>
      rw [List.cons_append, List.dropWhile_cons, List.dropWhile_cons, ih]
      split <;> rfl

theorem finds_groupExpression (h : ∀ c ∈ content, notBrace c = true) (rest : List Char) :
    groupExpression.Finds ('{' :: (content ++ '}' :: rest))
      [content.takeWhile isNameChar, groupPattern content] rest := by
  have hname : (Expression.keep (.many isNameChar)).Finds (content ++ '}' :: rest)
      [content.takeWhile isNameChar] (content.dropWhile isNameChar ++ '}' :: rest) := by
    have hfirst := finds_keep_many isNameChar (content ++ '}' :: rest)
    rwa [takeWhile_isNameChar, dropWhile_isNameChar] at hfirst
  have hback : ∀ c ∈ content.dropWhile isNameChar, notBrace c = true :=
    fun c hc => h c ((List.dropWhile_sublist _).subset hc)
  rw [groupPattern_eq]
  exact (finds_one (by decide)).next (hname.next (finds_closing hback rest))

/-! ### Nothing else is found -/

theorem closes_append {front : List Char} (h : ∀ c ∈ front, notBrace c = true) :
    Closes (front ++ cs) ↔ Closes cs := by
  induction front with
  | nil => rfl
  | cons c front ih =>
      obtain ⟨hc, hfront⟩ := List.forall_mem_cons.mp h
      rw [List.cons_append, closes_cons, ih hfront]
      simp [hc, (ne_of_notBrace hc).2]

/-- However much of a text a repetition takes, it does not change the first brace. -/
theorem closes_rest_of_mem_ways {p : Char → Bool} (hp : ∀ c, p c = true → notBrace c = true)
    {m : Match} (hm : m ∈ (Expression.keep (.many p)).ways cs) : Closes m.rest ↔ Closes cs := by
  obtain ⟨n, hn, rfl⟩ := List.mem_map.mp hm
  obtain ⟨rfl, htext⟩ := eq_append_of_mem_manyWays hn
  exact (closes_append fun c hc => hp c (htext c hc)).symm

theorem ways_toBrace_eq_nil (h : ¬ Closes cs) :
    (Expression.next (.keep (.many notBrace)) (.one (· == '}'))).ways cs = [] := by
  rw [Expression.ways_next_eq_nil]
  intro m hm
  have hrest : ¬ Closes m.rest := mt (closes_rest_of_mem_ways (fun _ hc => hc) hm).mp h
  cases hcs : m.rest with
  | nil => rfl
  | cons c rest =>
      have hc : c ≠ '}' := fun hc => hrest (by rw [hcs, closes_cons]; exact .inl hc)
      simp [Expression.ways, oneWay, hc]

theorem ways_closing_eq_nil (h : ¬ Closes cs) : closing.ways cs = [] := by
  rw [closing, Expression.ways_next_eq_nil]
  intro m hm
  apply ways_toBrace_eq_nil
  rcases List.mem_append.mp hm with hm | hm
  · cases cs with
    | nil => exact absurd hm List.not_mem_nil
    | cons c cs =>
        by_cases hc : c = '='
        · subst hc
          obtain rfl : m = ⟨['='], [], cs⟩ := by simpa [oneWay] using hm
          exact fun hcloses => h (closes_cons.mpr (.inr ⟨by decide, hcloses⟩))
        · simp [oneWay, hc] at hm
  · obtain rfl := List.mem_singleton.mp hm
    exact h

theorem ways_groupExpression_eq_nil {c : Char} (h : c = '{' → ¬ Closes cs) :
    groupExpression.ways (c :: cs) = [] := by
  rw [groupExpression, Expression.ways_next_eq_nil]
  intro m hm
  by_cases hc : c = '{'
  · obtain rfl : m = ⟨[c], [], cs⟩ := by simpa [Expression.ways, oneWay, hc] using hm
    rw [Expression.ways_next_eq_nil]
    intro n hn
    apply ways_closing_eq_nil
    exact mt (closes_rest_of_mem_ways (fun _ => notBrace_of_isNameChar) hn).mp (h hc)
  · simp [Expression.ways, oneWay, hc] at hm

end

/-! ### The search -/

/-- **The groups are what the expression finds.** The search finds the groups of a path at their
places and nothing else, and keeps the name and the pattern of each. -/
theorem scan_groupExpression {cs : List Char} {ss : List Segment} (h : Reads cs ss) :
    scan groupExpression cs = ss.map Segment.piece := by
  induction h with
  | nil => rw [scan, List.map_nil]
  | plain hc _ ih =>
      rw [scan_of_ways_eq_nil (ways_groupExpression_eq_nil hc), ih, List.map_cons, Segment.piece]
  | group hc _ ih =>
      rw [scan_of_finds (finds_groupExpression hc _) (by simp; omega), ih, List.map_cons,
        Segment.piece]

end RestScaffold.PathTemplate
