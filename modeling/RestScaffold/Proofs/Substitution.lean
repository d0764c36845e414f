import RestScaffold.Proofs.Sequencing
import RestScaffold.Proofs.Sources

/-! # Substitution

A skeleton is filled in one pass. It is stated here turn by turn, to show that it ends, and what is
left of a skeleton whose placeholders are told apart is each value in the place of its placeholder.

* `Filling`, `Filling.turn`: what is written and what is still to be read, and a turn of the pass;
* `Filling.keeps_of_turn`: a turn keeps the filled text and leaves less to read, where no placeholder
  is empty;
* `Filling.EndsIn`, `endsIn_iff`: the pass ends, and in the filled text only;
* `Separable`: placeholders that are told apart;
* `fillFrom_append_of_plain`, `fillFrom_placeholder`: text without placeholders, and a placeholder;
* `Slot`, `fill_skeletonOf`: a skeleton with its slots filled. -/

namespace RestScaffold.Target

/-! ### The pass -/

/-- Placeholders and their values, character by character. -/
abbrev CharValues := List (List Char × List Char)

/-- What a pass over a skeleton has written, and what it has still to read. -/
structure Filling where
  written : List Char
  rest : List Char

/-- A turn of the pass. What stands in front of the next bracket is copied; a placeholder there is
replaced, and a bracket that opens none is copied. Without a bracket there is no turn. -/
def Filling.turn (values : CharValues) (f : Filling) : Option Filling :=
  let copied := f.written ++ f.rest.takeWhile (· ≠ '<')
  match f.rest.dropWhile (· ≠ '<') with
  | [] => none
  | c :: cs =>
    match values.find? fun v => v.1.isPrefixOf (c :: cs) with
    | some (placeholder, value) => some ⟨copied ++ value, (c :: cs).drop placeholder.length⟩
    | none => some ⟨copied ++ [c], cs⟩

/-- The pass ends in a text: when there is no further turn, what is left to read is copied. -/
inductive Filling.EndsIn (values : CharValues) : Filling → List Char → Prop
  | stop {f : Filling} : f.turn values = none → EndsIn values f (f.written ++ f.rest)
  | step {f g : Filling} {text : List Char} :
      f.turn values = some g → EndsIn values g text → EndsIn values f text

section

variable {values : CharValues}

/-- What is skipped does not matter. -/
theorem fillFrom_eq_drop : ∀ (skip : Nat) (cs : List Char),
    fillFrom values skip cs = fillFrom values 0 (cs.drop skip)
  | 0, cs => by rw [List.drop_zero]
  | skip + 1, [] => rfl
  | skip + 1, c :: cs => by rw [fillFrom, fillFrom_eq_drop skip cs, List.drop_succ_cons]

theorem fillFrom_append_of_ne {cs : List Char} (h : ∀ c ∈ cs, c ≠ '<') (ds : List Char) :
    fillFrom values 0 (cs ++ ds) = cs ++ fillFrom values 0 ds := by
  induction cs with
  | nil => rfl
  | cons c cs ih =>
      obtain ⟨hc, hcs⟩ := List.forall_mem_cons.mp h
      rw [List.cons_append, fillFrom_cons_of_ne hc, ih hcs, List.cons_append]

theorem Filling.turn_eq_none_iff {f : Filling} : f.turn values = none ↔ '<' ∉ f.rest := by
  have hplain : f.rest.dropWhile (· ≠ '<') = [] ↔ '<' ∉ f.rest := by
    rw [List.dropWhile_eq_nil_iff]
    exact ⟨fun h hmem => by simpa using h _ hmem, fun h c hc => by
      simpa using ne_of_mem_of_not_mem hc h⟩
  rw [← hplain, turn]
  cases f.rest.dropWhile (· ≠ '<') with
  | nil => simp
  | cons c cs =>
      cases hfind : values.find? fun v => v.1.isPrefixOf (c :: cs) <;> simp [hfind]

/-- What a turn does: it copies the text in front of the first bracket, and then replaces the
placeholder that starts there, or copies the bracket. -/
theorem Filling.turn_cases {f g : Filling} (h : f.turn values = some g) :
    ∃ plain cs, f.rest = plain ++ '<' :: cs ∧ (∀ c ∈ plain, c ≠ '<') ∧
      ((∃ placeholder value,
          (values.find? fun v => v.1.isPrefixOf ('<' :: cs)) = some (placeholder, value) ∧
          g = ⟨f.written ++ plain ++ value, ('<' :: cs).drop placeholder.length⟩) ∨
        ((values.find? fun v => v.1.isPrefixOf ('<' :: cs)) = none ∧
          g = ⟨f.written ++ plain ++ ['<'], cs⟩)) := by
  have hsplit := List.takeWhile_append_dropWhile (p := (· ≠ '<')) (l := f.rest)
  have hplain : ∀ c ∈ f.rest.takeWhile (· ≠ '<'), c ≠ '<' := by
    intro c hc
    simpa using List.mem_takeWhile_imp hc
  unfold turn at h
  cases hdrop : f.rest.dropWhile (· ≠ '<') with
  | nil =>
      rw [hdrop] at h
      exact absurd h (by simp)
  | cons c cs =>
      have hhead := List.head?_dropWhile_not (· ≠ '<') f.rest
      rw [hdrop] at h hsplit hhead
      obtain rfl : c = '<' := by simpa using hhead
      refine ⟨_, cs, hsplit.symm, hplain, ?_⟩
      simp only at h
      split at h
      · rename_i placeholder value hfind
        exact Or.inl ⟨placeholder, value, hfind, (Option.some.inj h).symm⟩
      · rename_i hfind
        exact Or.inr ⟨hfind, (Option.some.inj h).symm⟩

/-- A turn keeps the text that is written in the end, and leaves less to read. -/
theorem Filling.keeps_of_turn (hne : ∀ v ∈ values, v.1 ≠ []) {f g : Filling}
    (h : f.turn values = some g) :
    g.written ++ fillFrom values 0 g.rest = f.written ++ fillFrom values 0 f.rest ∧
      g.rest.length < f.rest.length := by
  obtain ⟨plain, cs, hrest, hplain, ⟨placeholder, value, hfind, rfl⟩ | ⟨hfind, rfl⟩⟩ :=
    turn_cases h
  · obtain ⟨c, tail, htail⟩ :=
      List.exists_cons_of_ne_nil (hne _ (List.mem_of_find?_eq_some hfind))
    obtain rfl : placeholder = c :: tail := htail
    rw [hrest, fillFrom_append_of_ne hplain, fillFrom, if_pos rfl, hfind]
    constructor
    · simp [fillFrom_eq_drop tail.length]
    · simp
      omega
  · rw [hrest, fillFrom_append_of_ne hplain, fillFrom, if_pos rfl, hfind]
    constructor
    · simp
    · simp
      omega

theorem Filling.endsIn (hne : ∀ v ∈ values, v.1 ≠ []) (f : Filling) :
    f.EndsIn values (f.written ++ fillFrom values 0 f.rest) := by
  -- The induction is on what is still to be read.
  induction hlength : f.rest.length using Nat.strong_induction_on generalizing f with
  | _ n ih =>
      cases hturn : f.turn values with
      | none =>
          have hplain : ∀ c ∈ f.rest, c ≠ '<' :=
            fun c hc => ne_of_mem_of_not_mem hc (turn_eq_none_iff.mp hturn)
          have hcopy : fillFrom values 0 (f.rest ++ []) = f.rest ++ [] :=
            fillFrom_append_of_ne hplain []
          rw [List.append_nil] at hcopy
          rw [hcopy]
          exact .stop hturn
      | some g =>
          obtain ⟨hkeeps, hless⟩ := keeps_of_turn hne hturn
          rw [← hkeeps]
          exact .step hturn (ih _ (hlength ▸ hless) g rfl)

theorem Filling.EndsIn.unique {f : Filling} {text text' : List Char} (h : f.EndsIn values text)
    (h' : f.EndsIn values text') : text = text' := by
  induction h with
  | stop hstop =>
      cases h' with
      | stop => rfl
      | step hturn _ => exact absurd (hstop.symm.trans hturn) (by simp)
  | step hturn _ ih =>
      cases h' with
      | stop hstop => exact absurd (hstop.symm.trans hturn) (by simp)
      | step hturn' h' =>
          obtain rfl := Option.some.inj (hturn.symm.trans hturn')
          exact ih h'

theorem Filling.endsIn_iff (hne : ∀ v ∈ values, v.1 ≠ []) {f : Filling} {text : List Char} :
    f.EndsIn values text ↔ text = f.written ++ fillFrom values 0 f.rest :=
  ⟨fun h => h.unique (endsIn hne f), fun h => h ▸ endsIn hne f⟩

end

/-! ### Placeholders that are told apart -/

/-- Each placeholder is a bracket with text behind it that has none, and no placeholder starts with
another. -/
structure Separable (values : List (String × String)) : Prop where
  opens : ∀ v ∈ values, ∃ name, v.1.toList = '<' :: name ∧ '<' ∉ name
  apart : ∀ v ∈ values, ∀ w ∈ values, v.1.toList <+: w.1.toList → v.1 = w.1

/-- Placeholders and values, character by character. -/
def charValues (values : List (String × String)) : CharValues :=
  values.map fun v => (v.1.toList, v.2.toList)

/-- What starts a list of two parts stays in the first one, or reaches into the second. -/
theorem prefix_append_cases {α : Type} {p l l' : List α} (h : p <+: l ++ l') :
    p <+: l ∨ ∃ a q, a :: q <+: l' ∧ p = l ++ a :: q := by
  rcases List.prefix_or_prefix_of_prefix h (List.prefix_append l l') with hin | ⟨q, rfl⟩
  · exact Or.inl hin
  · cases q with
    | nil => exact Or.inl (by simp)
    | cons a q => exact Or.inr ⟨a, q, (List.prefix_append_right_inj l).mp h, rfl⟩

section

variable {values : List (String × String)}

theorem Separable.ne_nil (h : Separable values) : ∀ v ∈ charValues values, v.1 ≠ [] := by
  intro v hv
  obtain ⟨w, hw, rfl⟩ := List.mem_map.mp hv
  obtain ⟨name, hname, -⟩ := h.opens w hw
  simp [hname]

/-- No placeholder starts in a text without placeholders, whatever follows it, if that starts with a
bracket: it would have to have that bracket behind its own. -/
theorem Separable.not_prefix (h : Separable values) {v : String × String} (hv : v ∈ values)
    {cs ds : List Char} (hne : cs ≠ []) (hplain : ¬ v.1.toList <:+: cs)
    (hds : ∀ d ∈ ds.head?, d = '<') : ¬ v.1.toList <+: cs ++ ds := by
  intro hprefix
  rcases prefix_append_cases hprefix with hin | ⟨d, tail, ⟨rest, rfl⟩, hover⟩
  · exact hplain hin.isInfix
  · obtain rfl : d = '<' := hds d rfl
    obtain ⟨name, hname, hbracket⟩ := h.opens v hv
    obtain ⟨c, cs, rfl⟩ := List.exists_cons_of_ne_nil hne
    rw [hname, List.cons_append] at hover
    obtain ⟨-, rfl⟩ := List.cons.inj hover
    exact hbracket (List.mem_append_right cs List.mem_cons_self)

/-- Text without placeholders is copied, if nothing or a bracket follows it. -/
theorem fillFrom_append_of_plain (h : Separable values) {ds : List Char}
    (hds : ∀ d ∈ ds.head?, d = '<') : ∀ {cs : List Char},
      (∀ v ∈ values, ¬ v.1.toList <:+: cs) →
        fillFrom (charValues values) 0 (cs ++ ds) = cs ++ fillFrom (charValues values) 0 ds
  | [], _ => rfl
  | c :: cs, hplain => by
      have hrest : ∀ v ∈ values, ¬ v.1.toList <:+: cs :=
        fun v hv hin => hplain v hv (List.infix_cons hin)
      have hnone : (charValues values).find? (fun v => v.1.isPrefixOf (c :: cs ++ ds)) = none := by
        rw [List.find?_eq_none]
        intro v hv
        obtain ⟨w, hw, rfl⟩ := List.mem_map.mp hv
        rw [List.isPrefixOf_iff_prefix]
        exact h.not_prefix hw (List.cons_ne_nil c cs) (hplain w hw) hds
      rw [List.cons_append] at hnone ⊢
      rw [fillFrom, hnone]
      split <;> rw [fillFrom_append_of_plain h hds hrest, List.cons_append]

/-- A placeholder is replaced by its value, whatever the value and whatever follows. -/
theorem fillFrom_placeholder (h : Separable values) {placeholder value : String}
    (hvalue : values.lookup placeholder = some value) (ds : List Char) :
    fillFrom (charValues values) 0 (placeholder.toList ++ ds) =
      value.toList ++ fillFrom (charValues values) 0 ds := by
  have hmem := mem_of_lookup_eq_some hvalue
  obtain ⟨name, hname, -⟩ := h.opens _ hmem
  have hfind : (charValues values).find? (fun v => v.1.isPrefixOf (placeholder.toList ++ ds)) =
      some (placeholder.toList, value.toList) := by
    obtain ⟨before, after, hsplit, hbefore⟩ := List.lookup_eq_some_iff.mp hvalue
    rw [List.find?_eq_some_iff_append]
    refine ⟨by simp, charValues before, charValues after, by simp [hsplit, charValues], ?_⟩
    intro v hv
    obtain ⟨w, hw, rfl⟩ := List.mem_map.mp hv
    have hwmem : w ∈ values := hsplit ▸ List.mem_append_left _ hw
    have hdiffers : placeholder ≠ w.1 := by simpa using hbefore w hw
    -- Of two placeholders that start at one place one starts with the other.
    have hnot : ¬ w.1.toList <+: placeholder.toList ++ ds := by
      intro hprefix
      rcases List.prefix_or_prefix_of_prefix hprefix (List.prefix_append _ ds) with hw' | hw'
      · exact hdiffers (h.apart w hwmem _ hmem hw').symm
      · exact hdiffers (h.apart _ hmem w hwmem hw')
    simpa [← List.isPrefixOf_iff_prefix] using hnot
  have hname : placeholder.toList = '<' :: name := hname
  rw [hname, List.cons_append] at hfind ⊢
  rw [fillFrom, if_pos rfl, hfind]
  simp [fillFrom_eq_drop name.length]

/-- A placeholder of a skeleton, its value, and the text between it and the next. -/
structure Slot where
  placeholder : String
  value : String
  behind : String

/-- The skeleton with the given text in front of its slots. -/
def skeletonOf (front : String) (slots : List Slot) : String :=
  front ++ String.join (slots.map fun s => s.placeholder ++ s.behind)

/-- The same text with the values in the place of the placeholders. -/
def filledOf (front : String) (slots : List Slot) : String :=
  front ++ String.join (slots.map fun s => s.value ++ s.behind)

theorem head_join_eq (h : Separable values) {slots : List Slot}
    (hslots : ∀ s ∈ slots, values.lookup s.placeholder = some s.value) :
    ∀ d ∈ (String.join (slots.map fun s => s.placeholder ++ s.behind)).toList.head?, d = '<' := by
  cases slots with
  | nil => simp [String.join]
  | cons s slots =>
      have hmem := mem_of_lookup_eq_some (hslots s List.mem_cons_self)
      obtain ⟨name, hname, -⟩ := h.opens _ hmem
      have hname : s.placeholder.toList = '<' :: name := hname
      simp [String.toList_join, hname]

theorem fillFrom_join (h : Separable values) : ∀ {slots : List Slot},
    (∀ s ∈ slots, values.lookup s.placeholder = some s.value) →
    (∀ s ∈ slots, ∀ v ∈ values, ¬ v.1.toList <:+: s.behind.toList) →
      fillFrom (charValues values) 0
          (String.join (slots.map fun s => s.placeholder ++ s.behind)).toList =
        (String.join (slots.map fun s => s.value ++ s.behind)).toList
  | [], _, _ => rfl
  | s :: slots, hslots, hplain => by
      obtain ⟨hvalue, hrest⟩ := List.forall_mem_cons.mp hslots
      obtain ⟨hbehind, hplain⟩ := List.forall_mem_cons.mp hplain
      have hjoin : ∀ (t : String) (ts : List String),
          (String.join (t :: ts)).toList = t.toList ++ (String.join ts).toList := by
        intro t ts
        simp [String.toList_join]
      rw [List.map_cons, List.map_cons, hjoin, hjoin, String.toList_append, String.toList_append,
        List.append_assoc, fillFrom_placeholder h hvalue,
        fillFrom_append_of_plain h (head_join_eq h hrest) hbehind, fillFrom_join h hrest hplain,
        List.append_assoc]

/-- **Substitution in a single pass.** Where no placeholder is found in the texts around the slots
of a skeleton, filling it ends, and puts each value in the place of its placeholder, whatever the
values have in them. -/
theorem fill_skeletonOf (h : Separable values) {front : String} {slots : List Slot}
    (hslots : ∀ s ∈ slots, values.lookup s.placeholder = some s.value)
    (hplain : ∀ t ∈ front :: slots.map (·.behind), ∀ v ∈ values,
      ¬ v.1.toList <:+: t.toList) :
    (∀ text, Filling.EndsIn (charValues values) ⟨[], (skeletonOf front slots).toList⟩ text ↔
      text = (filledOf front slots).toList) ∧
    fill (skeletonOf front slots) values = filledOf front slots := by
  obtain ⟨hfront, hbehind⟩ := List.forall_mem_cons.mp hplain
  rw [List.forall_mem_map] at hbehind
  have hfilled : fillFrom (charValues values) 0 (skeletonOf front slots).toList =
      (filledOf front slots).toList := by
    rw [skeletonOf, String.toList_append,
      fillFrom_append_of_plain h (head_join_eq h hslots) hfront,
      fillFrom_join h hslots hbehind, filledOf, String.toList_append]
  refine ⟨fun text => ?_, ?_⟩
  · rw [Filling.endsIn_iff h.ne_nil, List.nil_append, hfilled]
  · rw [← String.toList_inj, toList_fill]
    exact hfilled

end

/-- A value that is written like a placeholder, and values that form one with what stands around
them. -/
def trickyValues : List (String × String) :=
  [("<name>", "<comment>"), ("<comment>", "<"), ("<body", "name>")]

/-- Slots without text between them, and with brackets that open none. -/
def trickySlots : List Slot :=
  [⟨"<comment>", "<", ""⟩, ⟨"<name>", "<comment>", ""⟩, ⟨"<body", "name>", "> < <nam"⟩,
   ⟨"<comment>", "<", "name>"⟩]

theorem fill_trickySlots : Separable trickyValues ∧
    (∀ text, Filling.EndsIn (charValues trickyValues)
        ⟨[], "<class <comment><name><body> < <nam<comment>name>".toList⟩ text ↔
      text = "<class <<comment>name>> < <nam<name>".toList) ∧
    fill "<class <comment><name><body> < <nam<comment>name>" trickyValues =
      "<class <<comment>name>> < <nam<name>" := by
  have hopens : ∀ v ∈ trickyValues, ∃ name, v.1.toList = '<' :: name ∧ '<' ∉ name := by
    intro v hv
    refine ⟨v.1.toList.tail, ?_⟩
    revert v
    decide +kernel
  have hseparable : Separable trickyValues := ⟨hopens, by decide +kernel⟩
  have hslots : ∀ s ∈ trickySlots, trickyValues.lookup s.placeholder = some s.value := by
    decide +kernel
  have hplain : ∀ t ∈ "<class " :: trickySlots.map (·.behind), ∀ v ∈ trickyValues,
      ¬ v.1.toList <:+: t.toList := by
    decide +kernel
  have hskeleton : skeletonOf "<class " trickySlots =
      "<class <comment><name><body> < <nam<comment>name>" := by
    decide +kernel
  have hfilled : filledOf "<class " trickySlots = "<class <<comment>name>> < <nam<name>" := by
    decide +kernel
  rw [← hskeleton, ← hfilled]
  exact ⟨hseparable, fill_skeletonOf hseparable hslots hplain⟩

end RestScaffold.Target
