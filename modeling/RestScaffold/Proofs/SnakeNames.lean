import RestScaffold.Proofs.CamelCase
import RestScaffold.Proofs.Sequencing

/-! # Snake case

By convention the names of a contract are words of small letters and digits with underscores between
them, and each word has a letter in front. Different names of this form stay different when they
become member names or constants; other names may meet, as `line_2` and `line2` do.

* `words_append`, `typeName_append`: an underscore parts the words around it;
* `IsSnake`, `words_of_isSnake`: names of this form, and their words;
* `unhump`, `unhump_memberName`: such a name is read back from its member name;
* `memberName_inj_of_isSnake`, `upper_inj_of_isSnake`: so different names stay different. -/

namespace RestScaffold.Naming

open Text (upper upperChar)

/-! ### Underscores -/

theorem words_append (s t : String) : words (s ++ "_" ++ t) = words s ++ words t := by
  have hparts : (s ++ "_" ++ t).toList = s.toList ++ '_' :: t.toList := by simp
  rw [words, hparts, List.splitOnP_append_cons _ _ (by decide), List.flatMap_append]
  rfl

theorem typeName_append (s t : String) : typeName (s ++ "_" ++ t) = typeName s ++ typeName t := by
  rw [typeName, words_append, List.flatMap_append, String.ofList_append]
  rfl

/-! ### Names in snake case -/

/-- A small letter, then small letters and digits. -/
def isSnakeWord : List Char → Bool
  | [] => false
  | c :: cs => c.isLower && cs.all fun d => d.isLower || d.isDigit

/-- Words of small letters and digits with underscores between them. -/
def IsSnake (s : String) : Prop :=
  ∀ w ∈ s.toList.splitOn '_', isSnakeWord w = true

instance : DecidablePred IsSnake :=
  fun s => inferInstanceAs (Decidable (∀ w ∈ s.toList.splitOn '_', isSnakeWord w = true))

theorem IsSnake.append {s t : String} (hs : IsSnake s) (ht : IsSnake t) :
    IsSnake (s ++ "_" ++ t) := by
  have hparts : (s ++ "_" ++ t).toList = s.toList ++ '_' :: t.toList := by simp
  unfold IsSnake
  rw [hparts, List.splitOn_append_cons_self, List.forall_mem_append]
  exact ⟨hs, ht⟩

theorem isLower_or_isDigit_of_isSnakeWord {w : List Char} (h : isSnakeWord w = true) :
    ∀ c ∈ w, c.isLower = true ∨ c.isDigit = true := by
  cases w with
  | nil => simp
  | cons c cs =>
      simp only [isSnakeWord, Bool.and_eq_true, List.all_eq_true, Bool.or_eq_true] at h
      exact List.forall_mem_cons.mpr ⟨Or.inl h.1, h.2⟩

theorem not_isUpper_of_isLower_or_isDigit {c : Char} (h : c.isLower = true ∨ c.isDigit = true) :
    ¬ c.isUpper := by
  rcases h with h | h
  · exact Char.not_isUpper_of_isLower h
  · simp only [Char.isDigit, Char.isUpper, ge_iff_le, Bool.and_eq_true, decide_eq_true_eq,
      UInt32.le_iff_toNat_le, show '9'.val.toNat = 57 from rfl, show 'A'.val.toNat = 65 from rfl]
      at h ⊢
    omega

theorem isAlphanum_of_isLower_or_isDigit {c : Char} (h : c.isLower = true ∨ c.isDigit = true) :
    c.isAlphanum := by
  rcases h with h | h <;> simp [Char.isAlphanum, Char.isAlpha, h]

/-! ### Their words -/

theorem cutWords_of_not_isUpper (stretch : Stretch) (word : List Char) {cs : List Char}
    (h : ∀ c ∈ cs, ¬ c.isUpper) (hne : word ++ cs ≠ []) :
    cutWords stretch word cs = [word ++ cs] := by
  fun_induction cutWords stretch word cs with
  | case1 => simp at hne
  | case2 => simp
  | case3 => simp
  | case4 stretch word c d cs hcut ih => exact absurd hcut.2 (h d (by simp))
  | case5 stretch word c d cs h1 h2 ih => exact absurd h2.2.1 (h c (by simp))
  | case6 stretch word c d cs h1 h2 ih =>
      rw [ih (fun e he => h e (List.mem_cons_of_mem c he)) (by simp)]
      simp

theorem words_of_isSnakeWord {w : List Char} (h : isSnakeWord w = true) :
    words (String.ofList w) = [w] := by
  have hchars := isLower_or_isDigit_of_isSnakeWord h
  have hne : w ≠ [] := by
    rintro rfl
    exact absurd h (by decide)
  rw [words_ofList fun c hc => isAlphanum_of_isLower_or_isDigit (hchars c hc)]
  exact cutWords_of_not_isUpper .fresh []
    (fun c hc => not_isUpper_of_isLower_or_isDigit (hchars c hc)) hne

theorem words_intercalate : ∀ {ws : List (List Char)}, ws ≠ [] →
    (∀ w ∈ ws, isSnakeWord w = true) → words (String.ofList (['_'].intercalate ws)) = ws
  | [w], _, h => by
      rw [List.intercalate_singleton]
      exact words_of_isSnakeWord (h w List.mem_cons_self)
  | w :: v :: ws, _, h => by
      obtain ⟨hw, hrest⟩ := List.forall_mem_cons.mp h
      have hparts : String.ofList (['_'].intercalate (w :: v :: ws)) =
          String.ofList w ++ "_" ++ String.ofList (['_'].intercalate (v :: ws)) := by
        simp [← String.toList_inj, List.intercalate_cons_cons]
      rw [hparts, words_append, words_of_isSnakeWord hw, words_intercalate (by simp) hrest]
      rfl

theorem words_of_isSnake {s : String} (h : IsSnake s) : words s = s.toList.splitOn '_' := by
  have hs : String.ofList (['_'].intercalate (s.toList.splitOn '_')) = s := by
    rw [List.intercalate_splitOn, String.ofList_toList]
  have hwords := words_intercalate (List.splitOn_ne_nil '_' s.toList) h
  rwa [hs] at hwords

/-! ### Reading names back -/

/-- The small letter of a capital behind an underscore, and any other character as it is. -/
def unhump (cs : List Char) : List Char :=
  cs.flatMap fun c => if c.isUpper then ['_', c.toLower] else [c]

theorem unhump_append (cs ds : List Char) : unhump (cs ++ ds) = unhump cs ++ unhump ds :=
  List.flatMap_append

theorem unhump_of_not_isUpper {cs : List Char} (h : ∀ c ∈ cs, ¬ c.isUpper) : unhump cs = cs := by
  induction cs with
  | nil => rfl
  | cons c cs ih =>
      obtain ⟨hc, hcs⟩ := List.forall_mem_cons.mp h
      rw [unhump, List.flatMap_cons, if_neg hc]
      exact congrArg (c :: ·) (ih hcs)

theorem small_of_not_isUpper {w : List Char} (h : ∀ c ∈ w, ¬ c.isUpper) : small w = w := by
  have hsame : ∀ c ∈ w, c.toLower = id c := fun c hc => Char.toLower_eq_of_not_isUpper (h c hc)
  rw [small, List.map_congr_left hsame, List.map_id]

/-- A capital in front of a word is read as an underscore in front of it. -/
theorem unhump_capitalized {w : List Char} (h : isSnakeWord w = true) :
    unhump (capitalized w) = '_' :: w := by
  have hupper : ∀ c ∈ w, ¬ c.isUpper := fun c hc =>
    not_isUpper_of_isLower_or_isDigit (isLower_or_isDigit_of_isSnakeWord h c hc)
  cases w with
  | nil => exact absurd h (by decide)
  | cons c cs =>
      obtain ⟨hc, hcs⟩ := List.forall_mem_cons.mp hupper
      have hlower : c.isLower = true := by
        simp only [isSnakeWord, Bool.and_eq_true] at h
        exact h.1
      have hcapital : c.toUpper.isUpper = true := by
        simp [Char.isAlpha, hlower]
      have hback : c.toUpper.toLower = c := by
        rw [Char.toLower_toUpper_eq_toLower, Char.toLower_eq_of_not_isUpper hc]
      rw [capitalized, small_of_not_isUpper hcs, unhump, List.flatMap_cons, if_pos hcapital, hback]
      show '_' :: c :: unhump cs = _
      rw [unhump_of_not_isUpper hcs]

theorem unhump_flatMap_capitalized : ∀ {ws : List (List Char)}, (∀ w ∈ ws, isSnakeWord w = true) →
    ∀ w : List Char, w ++ unhump (ws.flatMap capitalized) = ['_'].intercalate (w :: ws)
  | [], _, w => by simp [unhump, List.intercalate_singleton]
  | v :: ws, h, w => by
      obtain ⟨hv, hrest⟩ := List.forall_mem_cons.mp h
      rw [List.flatMap_cons, unhump_append, unhump_capitalized hv, List.intercalate_cons_cons,
        ← unhump_flatMap_capitalized hrest v]
      simp

/-- A name in snake case is read back from its member name. -/
theorem unhump_memberName {s : String} (h : IsSnake s) :
    unhump (memberName s).toList = s.toList := by
  rw [memberName_eq, String.toList_ofList, words_of_isSnake h]
  obtain ⟨w, ws, hws⟩ := List.exists_cons_of_ne_nil (List.splitOn_ne_nil '_' s.toList)
  have hsnake : ∀ v ∈ w :: ws, isSnakeWord v = true := hws ▸ h
  obtain ⟨hw, hrest⟩ := List.forall_mem_cons.mp hsnake
  have hupper : ∀ c ∈ w, ¬ c.isUpper := fun c hc =>
    not_isUpper_of_isLower_or_isDigit (isLower_or_isDigit_of_isSnakeWord hw c hc)
  rw [hws, memberChars, unhump_append, small_of_not_isUpper hupper, unhump_of_not_isUpper hupper,
    unhump_flatMap_capitalized hrest, ← hws, List.intercalate_splitOn]

theorem memberName_inj_of_isSnake {s t : String} (hs : IsSnake s) (ht : IsSnake t) :
    memberName s = memberName t ↔ s = t := by
  constructor
  · intro h
    rw [← String.toList_inj, ← unhump_memberName hs, h, unhump_memberName ht]
  · intro h
    rw [h]

/-! ### Constants -/

/-- A name in snake case is read back from its upper case. -/
theorem map_toLower_upper {s : String} (h : IsSnake s) :
    (upper s).toList.map Char.toLower = s.toList := by
  have hchar : ∀ c ∈ s.toList, (upperChar c).map Char.toLower = [c] := by
    intro c hc
    rcases (eq_or_mem_of_mem hc : c = '_' ∨ _) with rfl | ⟨w, hw, hc⟩
    · decide
    · have hsnake := isLower_or_isDigit_of_isSnakeWord (h w hw) c hc
      have hascii := toNat_lt_of_isAlphanum (isAlphanum_of_isLower_or_isDigit hsnake)
      rw [Text.upperChar_of_ascii hascii, List.map_singleton, Char.toLower_toUpper_eq_toLower,
        Char.toLower_eq_of_not_isUpper (not_isUpper_of_isLower_or_isDigit hsnake)]
  rw [upper, String.toList_ofList, List.map_flatMap, List.flatMap_congr hchar]
  simp

theorem upper_inj_of_isSnake {s t : String} (hs : IsSnake s) (ht : IsSnake t) :
    upper s = upper t ↔ s = t := by
  constructor
  · intro h
    rw [← String.toList_inj, ← map_toLower_upper hs, h, map_toLower_upper ht]
  · intro h
    rw [h]

end RestScaffold.Naming
