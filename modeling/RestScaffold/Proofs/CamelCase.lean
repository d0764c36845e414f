import Mathlib
import RestScaffold.Naming
import RestScaffold.Proofs.Sequencing

/-! # Camel case read again

A member name is cut into words like any other identifier when it is turned into a member name
once more. The second cut may miss a word of the first: `x_y_z` becomes `xYZ`, and that becomes
`xYz`.

* `cutWords_flatten`, `isAlphanum_of_mem_words`: cutting loses no character, and words are ASCII
  letters and digits;
* `lowerFirst_upperFirst_memberName`: a member name is told from its capitalised form;
* `HumpsVisible`: every capital is told from the word before it, as a property of the text;
* `memberName_ofList_eq_self_iff`: a text is its own member name exactly when its humps are
  visible. -/

namespace RestScaffold.Naming

/-! ### Words -/

theorem cutWords_flatten (stretch : Stretch) (word cs : List Char) :
    (cutWords stretch word cs).flatten = word ++ cs := by
  fun_induction cutWords stretch word cs with
  | case1 => simp
  | case2 stretch word h => simp
  | case3 => simp
  | case4 stretch word c d cs h ih => simp [ih]
  | case5 stretch word c d cs h1 h2 ih => simp [ih]
  | case6 stretch word c d cs h1 h2 ih => simp [ih]

theorem ne_nil_of_mem_cutWords {stretch : Stretch} {word cs : List Char}
    (hs : stretch = .upper → word ≠ []) : ∀ w ∈ cutWords stretch word cs, w ≠ [] := by
  fun_induction cutWords stretch word cs with
  | case1 => simp
  | case2 stretch word h => simpa using h
  | case3 => simp
  | case4 stretch word c d cs h ih => simpa using ih
  | case5 stretch word c d cs h1 h2 ih => simpa [hs h2.1] using ih
  | case6 stretch word c d cs h1 h2 ih => exact ih (by simp)

theorem ne_nil_of_mem_words {s : String} {w : List Char} (hw : w ∈ words s) : w ≠ [] := by
  obtain ⟨piece, -, hw⟩ := List.mem_flatMap.mp hw
  exact ne_nil_of_mem_cutWords (by simp) w hw

theorem isAlphanum_of_mem_words {s : String} {w : List Char} (hw : w ∈ words s) {c : Char}
    (hc : c ∈ w) : c.isAlphanum := by
  obtain ⟨piece, hp, hw⟩ := List.mem_flatMap.mp hw
  have hmem : c ∈ piece := by
    have h : c ∈ (cutWords .fresh [] piece).flatten := List.mem_flatten.mpr ⟨w, hw, hc⟩
    rwa [cutWords_flatten, List.nil_append] at h
  simpa using eq_false_of_mem_splitOnP hp hmem

/-- A text without separators is cut only where the case changes. -/
theorem words_ofList {cs : List Char} (h : ∀ c ∈ cs, c.isAlphanum) :
    words (String.ofList cs) = cutWords .fresh [] cs := by
  unfold words
  rw [String.toList_ofList, List.splitOnP_eq_singleton (by simpa using h)]
  simp

/-! ### Member names -/

theorem isAlphanum_toLower {c : Char} (h : c.isAlphanum) : c.toLower.isAlphanum := by
  by_cases hu : c.isUpper
  · have ha : c.isAlpha := by simp [Char.isAlpha, hu]
    simp [Char.isAlphanum, ha]
  · rwa [Char.toLower_eq_of_not_isUpper hu]

theorem isAlphanum_toUpper {c : Char} (h : c.isAlphanum) : c.toUpper.isAlphanum := by
  by_cases hl : c.isLower
  · have ha : c.isAlpha := by simp [Char.isAlpha, hl]
    simp [Char.isAlphanum, ha]
  · rwa [Char.toUpper_eq_of_not_isLower hl]

theorem toNat_lt_of_isAlphanum {c : Char} (h : c.isAlphanum) : c.toNat < 128 := by
  rw [← Char.toNat_val]
  simp only [Char.isAlphanum, Char.isAlpha, Char.isUpper, Char.isLower, Char.isDigit, ge_iff_le,
    Bool.or_eq_true, Bool.and_eq_true, decide_eq_true_eq, UInt32.le_iff_toNat_le,
    show 'Z'.val.toNat = 90 from rfl, show 'z'.val.toNat = 122 from rfl,
    show '9'.val.toNat = 57 from rfl] at h
  omega

/-- The characters of a member name. -/
def memberChars : List (List Char) → List Char
  | [] => []
  | w :: ws => small w ++ ws.flatMap capitalized

theorem memberName_eq (s : String) : memberName s = String.ofList (memberChars (words s)) := by
  unfold memberName
  split <;> simp_all [memberChars]

@[simp] theorem length_small (w : List Char) : (small w).length = w.length := by simp [small]

@[simp] theorem length_capitalized (w : List Char) : (capitalized w).length = w.length := by
  cases w <;> simp [capitalized]

theorem isAlphanum_of_mem_capitalized {w : List Char} (h : ∀ c ∈ w, c.isAlphanum) :
    ∀ c ∈ capitalized w, c.isAlphanum := by
  cases w with
  | nil => simp [capitalized]
  | cons d ds =>
      intro c hc
      simp only [capitalized, small, List.mem_cons, List.mem_map] at hc
      rcases hc with rfl | ⟨e, he, rfl⟩
      · exact isAlphanum_toUpper (h d List.mem_cons_self)
      · exact isAlphanum_toLower (h e (List.mem_cons_of_mem _ he))

theorem isAlphanum_of_mem_memberName (s : String) :
    ∀ c ∈ (memberName s).toList, c.isAlphanum := by
  intro c hc
  rw [memberName_eq, String.toList_ofList] at hc
  have hw : ∀ w ∈ words s, ∀ d ∈ w, d.isAlphanum := fun w hw d hd =>
    isAlphanum_of_mem_words hw hd
  cases hs : words s with
  | nil => simp [hs, memberChars] at hc
  | cons w ws =>
      rw [hs] at hc hw
      simp only [memberChars, List.mem_append, List.mem_flatMap, small, List.mem_map] at hc
      rcases hc with ⟨d, hd, rfl⟩ | ⟨v, hv, hc⟩
      · exact isAlphanum_toLower (hw w List.mem_cons_self d hd)
      · exact isAlphanum_of_mem_capitalized (hw v (List.mem_cons_of_mem _ hv)) c hc

theorem not_isUpper_head_memberName {s : String} {c : Char} {cs : List Char}
    (h : (memberName s).toList = c :: cs) : ¬ c.isUpper := by
  rw [memberName_eq, String.toList_ofList] at h
  cases hs : words s with
  | nil => simp [hs, memberChars] at h
  | cons w ws =>
      have hw : w ≠ [] := ne_nil_of_mem_words (hs ▸ List.mem_cons_self)
      obtain ⟨d, ds, rfl⟩ := List.exists_cons_of_ne_nil hw
      simp only [hs, memberChars, small, List.map_cons, List.cons_append, List.cons.injEq] at h
      simp [← h.1]

/-- A member name is told from its capitalised form. -/
theorem lowerFirst_upperFirst_memberName (s : String) :
    Text.lowerFirst (Text.upperFirst (memberName s)) = memberName s := by
  have hall := isAlphanum_of_mem_memberName s
  cases h : (memberName s).toList with
  | nil => simp [Text.lowerFirst, Text.upperFirst, Text.onFirst, h, ← String.toList_inj]
  | cons c cs =>
      have hc : c.isAlphanum := hall c (h ▸ List.mem_cons_self)
      have hu := toNat_lt_of_isAlphanum (isAlphanum_toUpper hc)
      have hl : c.toUpper.toLower = c := by
        rw [Char.toLower_toUpper_eq_toLower,
          Char.toLower_eq_of_not_isUpper (not_isUpper_head_memberName h)]
      simp [Text.lowerFirst, Text.upperFirst, Text.onFirst, h, ← String.toList_inj,
        Text.upperChar_of_ascii (toNat_lt_of_isAlphanum hc), Text.lowerChar_of_ascii hu, hl]

theorem typeName_eq_upperFirst_memberName (s : String) :
    typeName s = Text.upperFirst (memberName s) := by
  rw [memberName_eq, typeName, ← String.toList_inj]
  cases hs : words s with
  | nil => rfl
  | cons w ws =>
      have hmem : w ∈ words s := hs ▸ List.mem_cons_self
      obtain ⟨c, cs, rfl⟩ := List.exists_cons_of_ne_nil (ne_nil_of_mem_words hmem)
      have hc : c.toLower.toNat < 128 :=
        toNat_lt_of_isAlphanum (isAlphanum_toLower (isAlphanum_of_mem_words hmem List.mem_cons_self))
      simp [Text.upperFirst, Text.onFirst, memberChars, small, capitalized,
        Text.upperChar_of_ascii hc]

theorem upperFirst_memberName_inj {s t : String} :
    Text.upperFirst (memberName s) = Text.upperFirst (memberName t) ↔
      memberName s = memberName t := by
  constructor
  · intro h
    rw [← lowerFirst_upperFirst_memberName s, h, lowerFirst_upperFirst_memberName]
  · intro h
    rw [h]

/-! ### Humps -/

/-- Is a capital between `before` and `after` told from what precedes it? The nearest letter
before it must be small, or the capital must end a row of capitals with a small letter behind. -/
def OpensHump (before after : List Char) : Prop :=
  match (before.filter Char.isAlpha).getLast? with
  | none => False
  | some l => l.isLower ∨ after.head?.any Char.isLower

/-- Every capital of the text is told from what precedes it. -/
def HumpsVisible (cs : List Char) : Prop :=
  ∀ before c after, cs = before ++ c :: after → c.isUpper → OpensHump before after

/-- The same, read from left to right behind a stretch. -/
def HumpsVisibleFrom (stretch : Stretch) : List Char → Prop
  | [] => True
  | c :: cs =>
    (c.isUpper → stretch = .lower ∨ stretch = .upper ∧ cs.head?.any Char.isLower) ∧
      HumpsVisibleFrom (stretch.next c) cs

theorem humpsVisibleFrom_cons (stretch : Stretch) (c : Char) (cs : List Char) :
    HumpsVisibleFrom stretch (c :: cs) ↔
      (c.isUpper → stretch = .lower ∨ stretch = .upper ∧ cs.head?.any Char.isLower) ∧
        HumpsVisibleFrom (stretch.next c) cs := Iff.rfl

instance decidableHumpsVisibleFrom :
    ∀ (stretch : Stretch) (cs : List Char), Decidable (HumpsVisibleFrom stretch cs)
  | _, [] => inferInstanceAs (Decidable True)
  | stretch, c :: cs =>
      have := decidableHumpsVisibleFrom (stretch.next c) cs
      inferInstanceAs (Decidable ((c.isUpper → _ ∨ _ ∧ _) ∧ HumpsVisibleFrom _ cs))

/-- The stretch behind a text. -/
def stretchOf (before : List Char) : Stretch :=
  before.foldl Stretch.next .fresh

theorem stretchOf_append (before : List Char) (c : Char) :
    stretchOf (before ++ [c]) = (stretchOf before).next c := by
  simp [stretchOf]

/-- The stretch is the case of the last letter. -/
theorem opensHump_iff (before after : List Char) :
    OpensHump before after ↔ stretchOf before = .lower ∨
      stretchOf before = .upper ∧ after.head?.any Char.isLower := by
  induction before using List.reverseRecOn with
  | nil => simp [OpensHump, stretchOf]
  | append_singleton before c ih =>
      rw [stretchOf_append]
      unfold OpensHump Stretch.next at *
      by_cases hl : c.isLower
      · have ha : c.isAlpha := by simp [Char.isAlpha, hl]
        simp [List.filter_append, ha, hl]
      · by_cases hu : c.isUpper
        · have ha : c.isAlpha := by simp [Char.isAlpha, hu]
          simp [List.filter_append, ha, hl, hu]
        · have ha : c.isAlpha = false := by simp [Char.isAlpha, hl, hu]
          simp only [List.filter_append, List.filter_cons, ha, List.filter_nil, hl, hu,
            List.append_nil, if_false, Bool.false_eq_true]
          exact ih

theorem humpsVisibleFrom_iff : ∀ (before cs : List Char),
    HumpsVisibleFrom (stretchOf before) cs ↔ ∀ between c after, cs = between ++ c :: after →
      c.isUpper → OpensHump (before ++ between) after
  | before, [] => by simp [HumpsVisibleFrom]
  | before, c :: cs => by
      rw [HumpsVisibleFrom, ← stretchOf_append, humpsVisibleFrom_iff (before ++ [c]) cs,
        ← opensHump_iff]
      constructor
      · rintro ⟨hc, h⟩ between d after e hd
        cases between with
        | nil =>
            obtain ⟨rfl, rfl⟩ := List.cons.inj e
            simpa using hc hd
        | cons b bs =>
            obtain ⟨rfl, rfl⟩ := List.cons.inj e
            simpa using h bs d after rfl hd
      · intro h
        refine ⟨fun hc => by simpa using h [] c cs rfl hc, fun between d after e hd => ?_⟩
        simpa using h (c :: between) d after (by simp [e]) hd

theorem humpsVisible_iff (cs : List Char) : HumpsVisible cs ↔ HumpsVisibleFrom .fresh cs :=
  (humpsVisibleFrom_iff [] cs).symm

instance : DecidablePred HumpsVisible :=
  fun cs => decidable_of_iff _ (humpsVisible_iff cs).symm

/-! ### The second cut -/

/-- Capitals only start words. -/
def CapitalsLead (ws : List (List Char)) : Prop :=
  ∀ w ∈ ws, ∀ c ∈ w.tail, ¬ c.isUpper

theorem capitalsLead_cons (w : List Char) (ws : List (List Char)) :
    CapitalsLead (w :: ws) ↔ (∀ c ∈ w.tail, ¬ c.isUpper) ∧ CapitalsLead ws := by
  simp [CapitalsLead]

theorem Stretch.next_of_isUpper {c : Char} (h : c.isUpper) (stretch : Stretch) :
    stretch.next c = .upper := by
  simp [Stretch.next, Char.not_isLower_of_isUpper h, h]

theorem Stretch.not_isUpper_of_next {stretch : Stretch} {c : Char} (h : stretch.next c = .lower) :
    ¬ c.isUpper := by
  intro hu
  simp [next_of_isUpper hu] at h

/-- A small letter hides what the stretch was before it. -/
theorem humpsVisibleFrom_of_isLower {d : Char} (h : d.isLower) (stretch : Stretch)
    (cs : List Char) :
    HumpsVisibleFrom stretch (d :: cs) ↔ HumpsVisibleFrom .lower cs := by
  simp [HumpsVisibleFrom, Stretch.next, h, Char.not_isUpper_of_isLower h]

theorem hump_in_word_iff {stretch : Stretch} {c : Char} {behind : Prop}
    (hs : stretch = .lower → ¬ c.isUpper) (hb : ¬ (stretch = .upper ∧ c.isUpper ∧ behind)) :
    (c.isUpper → stretch = .lower ∨ stretch = .upper ∧ behind) ↔ ¬ c.isUpper := by
  tauto

/-- The humps behind the first character of a word, which may be a capital. -/
def HumpsVisibleBehind : List Char → Prop
  | [] => True
  | c :: cs => HumpsVisibleFrom (Stretch.next .fresh c) cs

/-- Capitals lead the words of a text exactly when its humps are visible. The induction goes over
the cutting, in the middle of a word and at its start. In the middle, a small stretch stands
before no capital, since the cut would have been made there. -/
theorem capitalsLead_cutWords (stretch : Stretch) (word cs : List Char) :
    (word ≠ [] → (stretch = .lower → ¬ cs.head?.any Char.isUpper) →
      (CapitalsLead (cutWords stretch word cs) ↔
        (∀ c ∈ word.tail, ¬ c.isUpper) ∧ HumpsVisibleFrom stretch cs)) ∧
    (word = [] → stretch = .fresh →
      (CapitalsLead (cutWords stretch word cs) ↔ HumpsVisibleBehind cs)) := by
  fun_induction cutWords stretch word cs with
  | case1 => simp [CapitalsLead, HumpsVisibleBehind]
  | case2 stretch word h => simp [CapitalsLead, HumpsVisibleFrom, h]
  | case3 stretch word c =>
      constructor
      · intro hw hs
        rw [HumpsVisibleFrom, hump_in_word_iff (by simpa using hs) (by simp), capitalsLead_cons,
          List.tail_append_of_ne_nil hw, List.forall_mem_append]
        simp [CapitalsLead, HumpsVisibleFrom]
      · rintro rfl rfl
        simp [CapitalsLead, HumpsVisibleBehind, HumpsVisibleFrom]
  | case4 stretch word c d cs h ih =>
      obtain ⟨hc, hd⟩ := h
      have ih := ih.2 rfl rfl
      rw [HumpsVisibleBehind, Stretch.next_of_isUpper hd] at ih
      have hn : HumpsVisibleFrom (stretch.next c) (d :: cs) ↔ HumpsVisibleFrom .upper cs := by
        simp [HumpsVisibleFrom, hc, Stretch.next_of_isUpper hd]
      constructor
      · intro hw hs
        rw [capitalsLead_cons, ih, List.tail_append_of_ne_nil hw, List.forall_mem_append,
          HumpsVisibleFrom, hn]
        simp [Stretch.not_isUpper_of_next hc]
      · rintro rfl rfl
        rw [capitalsLead_cons, ih, HumpsVisibleBehind, hn]
        simp
  | case5 stretch word c d cs h1 h2 ih =>
      obtain ⟨rfl, hc, hd⟩ := h2
      have ih := ih.1 (by simp) (by simp)
      rw [humpsVisibleFrom_of_isLower hd] at ih
      constructor
      · intro hw hs
        rw [capitalsLead_cons, ih, HumpsVisibleFrom, humpsVisibleFrom_of_isLower hd]
        simp [hd]
      · intro _ h
        cases h
  | case6 stretch word c d cs h1 h2 ih =>
      have ih := ih.1 (by simp) (by simpa using h1)
      constructor
      · intro hw hs
        rw [ih, humpsVisibleFrom_cons stretch c, List.tail_append_of_ne_nil hw,
          List.forall_mem_append, hump_in_word_iff (by simpa using hs) (by simpa using h2)]
        simp [and_assoc]
      · rintro rfl rfl
        rw [ih, HumpsVisibleBehind]
        simp

/-- The first word starts where the text starts, every other at a capital. -/
theorem heads_of_cutWords {stretch : Stretch} {word cs : List Char} {w : List Char}
    {ws : List (List Char)} (hs : stretch = .upper → word ≠ [])
    (h : cutWords stretch word cs = w :: ws) :
    w.head? = (word ++ cs).head? ∧ ∀ v ∈ ws, v.head?.any Char.isUpper := by
  fun_induction cutWords stretch word cs generalizing w ws with
  | case1 => simp at h
  | case2 stretch word hw =>
      obtain ⟨rfl, rfl⟩ := List.cons.inj h
      simp
  | case3 stretch word c =>
      obtain ⟨rfl, rfl⟩ := List.cons.inj h
      simp
  | case4 stretch word c d cs hc ih =>
      obtain ⟨rfl, rfl⟩ := List.cons.inj h
      refine ⟨by simp, fun v hv => ?_⟩
      obtain ⟨u, us, hu⟩ := List.exists_cons_of_ne_nil (List.ne_nil_of_mem hv)
      obtain ⟨hh, ht⟩ := ih (by simp) hu
      rw [hu] at hv
      rcases List.mem_cons.mp hv with rfl | hv
      · simp [hh, hc.2]
      · exact ht v hv
  | case5 stretch word c d cs h1 h2 ih =>
      obtain ⟨rfl, rfl⟩ := List.cons.inj h
      refine ⟨(List.head?_append_of_ne_nil _ (hs h2.1)).symm, fun v hv => ?_⟩
      obtain ⟨u, us, hu⟩ := List.exists_cons_of_ne_nil (List.ne_nil_of_mem hv)
      obtain ⟨hh, ht⟩ := ih (by simp) hu
      rw [hu] at hv
      rcases List.mem_cons.mp hv with rfl | hv
      · simp [hh, h2.2.1]
      · exact ht v hv
  | case6 stretch word c d cs h1 h2 ih =>
      obtain ⟨hh, ht⟩ := ih (by simp) h
      exact ⟨by simp [hh], ht⟩

/-! ### Texts that are their own member names -/

theorem small_eq_self_iff (w : List Char) : small w = w ↔ ∀ c ∈ w, ¬ c.isUpper := by
  induction w with
  | nil => simp [small]
  | cons c cs ih =>
      have hc : c.toLower = c ↔ ¬ c.isUpper :=
        ⟨fun h => by rw [← h]; simp, Char.toLower_eq_of_not_isUpper⟩
      rw [List.forall_mem_cons, ← ih, ← hc]
      simp [small]

theorem capitalized_eq_self_iff {w : List Char} (hw : w.head?.any Char.isUpper) :
    capitalized w = w ↔ ∀ c ∈ w.tail, ¬ c.isUpper := by
  cases w with
  | nil => simp at hw
  | cons c cs =>
      have hc : c.toUpper = c :=
        Char.toUpper_eq_of_not_isLower (Char.not_isLower_of_isUpper (by simpa using hw))
      rw [List.tail_cons, ← small_eq_self_iff, capitalized, hc]
      simp

/-- A change of words that keeps their lengths keeps the text only if it keeps every word. -/
theorem flatMap_eq_flatten_iff {f : List Char → List Char} (hf : ∀ w, (f w).length = w.length) :
    ∀ ws : List (List Char), ws.flatMap f = ws.flatten ↔ ∀ w ∈ ws, f w = w
  | [] => by simp
  | w :: ws => by
      rw [List.flatMap_cons, List.flatten_cons, List.forall_mem_cons,
        ← flatMap_eq_flatten_iff hf ws]
      exact ⟨fun h => List.append_inj h (hf w), fun h => by rw [h.1, h.2]⟩

/-- The first word is written small and the others with a capital, so that a text is kept exactly
when it starts small and capitals lead its words. -/
theorem memberChars_cutWords_eq_iff (c : Char) (cs : List Char) :
    memberChars (cutWords .fresh [] (c :: cs)) = c :: cs ↔
      ¬ c.isUpper ∧ CapitalsLead (cutWords .fresh [] (c :: cs)) := by
  have hflat := cutWords_flatten .fresh [] (c :: cs)
  rw [List.nil_append] at hflat
  cases hws : cutWords .fresh [] (c :: cs) with
  | nil => simp [hws] at hflat
  | cons w ws =>
      obtain ⟨hh, ht⟩ := heads_of_cutWords (by simp) hws
      obtain ⟨ds, rfl⟩ : ∃ ds, w = c :: ds := by
        cases w with
        | nil => simp at hh
        | cons d ds => exact ⟨ds, by simpa using hh⟩
      have hlead : CapitalsLead ws ↔ ws.flatMap capitalized = ws.flatten := by
        rw [flatMap_eq_flatten_iff length_capitalized]
        exact forall₂_congr fun v hv => (capitalized_eq_self_iff (ht v hv)).symm
      have hsmall : (¬ c.isUpper ∧ ∀ d ∈ ds, ¬ d.isUpper) ↔ small (c :: ds) = c :: ds := by
        rw [small_eq_self_iff, List.forall_mem_cons]
      rw [capitalsLead_cons, hlead, ← hflat, hws, List.flatten_cons, memberChars, List.tail_cons,
        ← and_assoc, hsmall]
      exact ⟨fun h => List.append_inj h (length_small _), fun h => by rw [h.1, h.2]⟩

/-- **Fixed points of member names.** A text of letters and digits is its own member name exactly
when its humps are visible. -/
theorem memberName_ofList_eq_self_iff {cs : List Char} (h : ∀ c ∈ cs, c.isAlphanum) :
    memberName (String.ofList cs) = String.ofList cs ↔ HumpsVisible cs := by
  rw [memberName_eq, words_ofList h, humpsVisible_iff, String.ofList_inj]
  cases cs with
  | nil => simp [cutWords, memberChars, HumpsVisibleFrom]
  | cons c cs =>
      rw [memberChars_cutWords_eq_iff, (capitalsLead_cutWords .fresh [] (c :: cs)).2 rfl rfl]
      simp [HumpsVisibleBehind, HumpsVisibleFrom]

theorem memberName_memberName_eq_iff (s : String) :
    memberName (memberName s) = memberName s ↔ HumpsVisible (memberName s).toList := by
  have h := memberName_ofList_eq_self_iff (isAlphanum_of_mem_memberName s)
  rwa [String.ofList_toList] at h

example : HumpsVisible (memberName "user_2fa_id").toList ∧
    ¬ HumpsVisible (memberName "x_y_z").toList := by decide

end RestScaffold.Naming
