import RestScaffold.Proofs.CamelCase

/-! # Letters of names

Camel case keeps the letters and digits of an identifier, in order, and changes at most their case.
So the member name and the type name of an identifier are told apart by their first letter alone.

* `lettersOf`, `flatten_words`: the letters and digits of a text, which are those of its words;
* `small_capitalized`, `small_memberChars`: what camel case does to words is lost in small letters;
* `KeepsLetters`: a name that is written with the letters and digits of an identifier;
* `namesPaired`: how the two names of an identifier go together. -/

namespace RestScaffold.Naming

open Text (upperFirst lowerFirst)

/-! ### Letters of a text -/

/-- The ASCII letters and digits of a text, in order. -/
def lettersOf (s : String) : List Char :=
  s.toList.filter Char.isAlphanum

theorem lettersOf_eq_nil_iff (s : String) : lettersOf s = [] ↔ ∀ c ∈ s.toList, ¬ c.isAlphanum :=
  List.filter_eq_nil_iff

theorem flatten_flatMap_cutWords (pieces : List (List Char)) :
    (pieces.flatMap (cutWords .fresh [])).flatten = pieces.flatten := by
  induction pieces with
  | nil => rfl
  | cons piece pieces ih =>
      rw [List.flatMap_cons, List.flatten_append, cutWords_flatten, List.nil_append, ih,
        List.flatten_cons]

theorem flatten_words (s : String) : (words s).flatten = lettersOf s := by
  rw [words, flatten_flatMap_cutWords, flatten_splitOnP, lettersOf]
  simp

/-! ### Small letters -/

theorem small_append (as bs : List Char) : small (as ++ bs) = small as ++ small bs :=
  List.map_append

theorem small_small (w : List Char) : small (small w) = small w := by
  apply (small_eq_self_iff _).mpr
  intro c hc
  obtain ⟨d, -, rfl⟩ := List.mem_map.mp hc
  simp

theorem small_capitalized (w : List Char) : small (capitalized w) = small w := by
  cases w with
  | nil => rfl
  | cons c cs =>
      have hfirst : c.toUpper.toLower = c.toLower := Char.toLower_toUpper_eq_toLower c
      have hrest : small (small cs) = small cs := small_small cs
      calc small (capitalized (c :: cs)) = c.toUpper.toLower :: small (small cs) := rfl
        _ = small (c :: cs) := by rw [hfirst, hrest]; rfl

theorem small_flatMap_capitalized (ws : List (List Char)) :
    small (ws.flatMap capitalized) = small ws.flatten := by
  induction ws with
  | nil => rfl
  | cons w ws ih =>
      rw [List.flatMap_cons, List.flatten_cons, small_append, small_append, small_capitalized, ih]

theorem small_memberChars (ws : List (List Char)) : small (memberChars ws) = small ws.flatten := by
  cases ws with
  | nil => rfl
  | cons w ws =>
      rw [memberChars, List.flatten_cons, small_append, small_append, small_small,
        small_flatMap_capitalized]

/-! ### Names that keep letters -/

/-- The name is written with the letters and digits of `s`: with all of them, in order, each in
either case. -/
structure KeepsLetters (s name : String) : Prop where
  alphanum : ∀ c ∈ name.toList, c.isAlphanum
  letters : small name.toList = small (lettersOf s)
  empty : name = "" ↔ ∀ c ∈ s.toList, ¬ c.isAlphanum

theorem keepsLetters_of_small_eq {s name : String} (halphanum : ∀ c ∈ name.toList, c.isAlphanum)
    (hletters : small name.toList = small (lettersOf s)) : KeepsLetters s name where
  alphanum := halphanum
  letters := hletters
  empty := by
    have hlength : name.toList.length = (lettersOf s).length := by
      rw [← length_small name.toList, hletters, length_small]
    rw [← lettersOf_eq_nil_iff, ← List.length_eq_zero_iff, ← hlength, List.length_eq_zero_iff,
      String.toList_eq_nil_iff]

theorem keepsLetters_memberName (s : String) : KeepsLetters s (memberName s) := by
  apply keepsLetters_of_small_eq (isAlphanum_of_mem_memberName s)
  rw [memberName_eq, String.toList_ofList, small_memberChars, flatten_words]

theorem keepsLetters_typeName (s : String) : KeepsLetters s (typeName s) := by
  apply keepsLetters_of_small_eq
  · intro c hc
    rw [typeName, String.toList_ofList] at hc
    obtain ⟨w, hw, hc⟩ := List.mem_flatMap.mp hc
    exact isAlphanum_of_mem_capitalized (fun d hd => isAlphanum_of_mem_words hw hd) c hc
  · rw [typeName, String.toList_ofList, small_flatMap_capitalized, flatten_words]

/-! ### The two names -/

theorem tail_typeName (s : String) : (typeName s).toList.tail = (memberName s).toList.tail := by
  rw [memberName_eq, typeName, String.toList_ofList, String.toList_ofList]
  cases hs : words s with
  | nil => rfl
  | cons w ws =>
      have hmem : w ∈ words s := hs ▸ List.mem_cons_self
      obtain ⟨c, cs, rfl⟩ := List.exists_cons_of_ne_nil (ne_nil_of_mem_words hmem)
      rfl

/-- The member name and the type name of an identifier: each is the other with its first letter
changed, both keep the letters of the identifier, and behind their first letters they are the
same. -/
structure NamesPaired (s : String) : Prop where
  capital : typeName s = upperFirst (memberName s)
  small : memberName s = lowerFirst (typeName s)
  rest : (typeName s).toList.tail = (memberName s).toList.tail
  memberLetters : KeepsLetters s (memberName s)
  typeLetters : KeepsLetters s (typeName s)

/-- **Member names and type names.** For every text, be it an identifier or not, its member name and
its type name differ in the case of their first letter at most, and both are made of the ASCII
letters and digits of the text, none of them lost or moved. -/
theorem namesPaired (s : String) : NamesPaired s where
  capital := typeName_eq_upperFirst_memberName s
  small := by rw [typeName_eq_upperFirst_memberName, lowerFirst_upperFirst_memberName]
  rest := tail_typeName s
  memberLetters := keepsLetters_memberName s
  typeLetters := keepsLetters_typeName s

example : memberName "__HTTPServer 2go-été" = "httpServer2goT" ∧
    lettersOf "__HTTPServer 2go-été" = "HTTPServer2got".toList := by decide

end RestScaffold.Naming
