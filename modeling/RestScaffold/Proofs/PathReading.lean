import Mathlib.Data.List.DropRight
import Mathlib.Data.List.Nodup
import RestScaffold.PathTemplate

/-! # Readings of paths

What the groups of a path are, told without the function that looks for them, and what that
function and the list of variables make of them.

* `Closes`, `Reads`: a path as a sequence of plain characters and groups;
* `reads_iff`: every path has one reading, and it is the one that is computed;
* `names_variablesOf`: the variables of a path have the names of its groups, each once, in order of
  first appearance;
* `nodup_variablesOf`: a path binds no variable twice. -/

namespace RestScaffold.PathTemplate

/-! ### Readings -/

/-- The first brace of a text is a closing one. -/
def Closes (cs : List Char) : Prop :=
  cs.find? (fun c => !notBrace c) = some '}'

/-- A path as plain characters and groups. A group reaches from an opening brace to a closing one
that is the next brace behind it. An opening brace whose next brace does not close it is plain, as
is every other character outside the groups. -/
inductive Reads : List Char → List Segment → Prop where
  | nil : Reads [] []
  | plain {c : Char} {cs : List Char} {ss : List Segment} (hc : c = '{' → ¬ Closes cs)
      (hs : Reads cs ss) : Reads (c :: cs) (.plain c :: ss)
  | group {content cs : List Char} {ss : List Segment} (hc : ∀ c ∈ content, notBrace c = true)
      (hs : Reads cs ss) : Reads ('{' :: (content ++ '}' :: cs)) (.group content :: ss)

/-- The text of a segment. -/
def Segment.text : Segment → List Char
  | .plain c => [c]
  | .group content => '{' :: content ++ ['}']

theorem ne_of_notBrace {c : Char} (h : notBrace c = true) : c ≠ '{' ∧ c ≠ '}' := by
  unfold notBrace at h
  rw [Bool.and_eq_true, bne_iff_ne, bne_iff_ne] at h
  exact h

theorem closes_cons {c : Char} {cs : List Char} :
    Closes (c :: cs) ↔ c = '}' ∨ (notBrace c = true ∧ Closes cs) := by
  unfold Closes
  rw [List.find?_cons]
  cases h : notBrace c with
  | true => simp [(ne_of_notBrace h).2]
  | false => simp

theorem not_closes_open {cs : List Char} : ¬ Closes ('{' :: cs) := by
  rw [closes_cons]
  exact not_or.mpr ⟨by decide, fun h => absurd h.1 (by decide)⟩

theorem closes_iff {cs : List Char} :
    Closes cs ↔ ∃ rest, cs.dropWhile notBrace = '}' :: rest := by
  induction cs with
  | nil => simp [Closes]
  | cons c cs ih =>
      rw [closes_cons, List.dropWhile_cons, ih]
      cases h : notBrace c with
      | true => simp [(ne_of_notBrace h).2]
      | false => simp [eq_comm]

section

variable {content : List Char}

theorem takeWhile_content (h : ∀ c ∈ content, notBrace c = true) (cs : List Char) :
    (content ++ '}' :: cs).takeWhile notBrace = content := by
  rw [List.takeWhile_append_of_pos h, List.takeWhile_cons_of_neg (by decide), List.append_nil]

theorem dropWhile_content (h : ∀ c ∈ content, notBrace c = true) (cs : List Char) :
    (content ++ '}' :: cs).dropWhile notBrace = '}' :: cs := by
  rw [List.dropWhile_append_of_pos h, List.dropWhile_cons_of_neg (by decide)]

theorem closes_content (h : ∀ c ∈ content, notBrace c = true) (cs : List Char) :
    Closes (content ++ '}' :: cs) :=
  closes_iff.mpr ⟨cs, dropWhile_content h cs⟩

end

theorem Reads.text_eq {cs : List Char} {ss : List Segment} (h : Reads cs ss) :
    ss.flatMap Segment.text = cs := by
  induction h with
  | nil => rfl
  | plain _ _ ih => rw [List.flatMap_cons, ih, Segment.text, List.singleton_append]
  | group _ _ ih => simp [Segment.text, ih]

theorem reads_segments (cs : List Char) : Reads cs (segments cs) := by
  fun_induction segments cs with
  | case1 => exact .nil
  | case2 cs rest hrest ih =>
      have hcut : cs = cs.takeWhile notBrace ++ '}' :: rest := by
        rw [← hrest, List.takeWhile_append_dropWhile]
      conv => enter [1]; rw [hcut]
      exact .group (fun c hc => List.mem_takeWhile_imp hc) ih
  | case3 cs hopen ih =>
      refine .plain (fun _ hcloses => ?_) ih
      obtain ⟨rest, hrest⟩ := closes_iff.mp hcloses
      exact hopen rest hrest
  | case4 c cs hc ih => exact .plain (fun h => absurd h hc) ih

theorem Reads.unique {cs : List Char} {ss ss' : List Segment} (h : Reads cs ss)
    (h' : Reads cs ss') : ss = ss' := by
  induction h generalizing ss' with
  | nil => cases h'; rfl
  | plain hc _ ih =>
      cases h' with
      | plain _ hs' => rw [ih hs']
      | group hc' _ => exact absurd (closes_content hc' _) (hc rfl)
  | @group content cs ss hc _ ih =>
      generalize htext : '{' :: (content ++ '}' :: cs) = text at h'
      cases h' with
      | nil => exact absurd htext (List.cons_ne_nil _ _)
      | plain hc' _ =>
          obtain ⟨rfl, rfl⟩ := List.cons.inj htext
          exact absurd (closes_content hc _) (hc' rfl)
      | @group content' cs' ss' hc' hs' =>
          have hbehind := (List.cons.inj htext).2
          have hcontent : content = content' := by
            rw [← takeWhile_content hc cs, hbehind, takeWhile_content hc' cs']
          have hrest : '}' :: cs = '}' :: cs' := by
            rw [← dropWhile_content hc cs, hbehind, dropWhile_content hc' cs']
          obtain rfl := (List.cons.inj hrest).2
          rw [hcontent, ih hs']

/-- Every path has one reading, and it is the one that is computed. -/
theorem reads_iff {cs : List Char} {ss : List Segment} : Reads cs ss ↔ segments cs = ss := by
  constructor
  · exact fun h => (reads_segments cs).unique h
  · rintro rfl
    exact reads_segments cs

/-- The names of the groups of a path, from left to right. -/
def groupNames (path : String) : List String :=
  (groups path).map groupName

/-! ### Variables -/

theorem names_addVariable (vars : List Variable) (v : Variable) :
    (addVariable vars v).map (·.name) =
      if v.name ∈ vars.map (·.name) then vars.map (·.name) else vars.map (·.name) ++ [v.name] := by
  have hany : vars.any (·.name = v.name) = true ↔ v.name ∈ vars.map (·.name) := by
    simp
  unfold addVariable
  by_cases h : vars.any (·.name = v.name) = true
  · rw [if_pos h, if_pos (hany.mp h), List.map_map]
    apply List.map_congr_left
    intro w _
    by_cases hw : w.name = v.name <;> simp [hw]
  · rw [if_neg h, if_neg (mt hany.mpr h), List.map_append, List.map_cons, List.map_nil]

theorem nodup_addVariable {vars : List Variable} (h : (vars.map (·.name)).Nodup) (v : Variable) :
    ((addVariable vars v).map (·.name)).Nodup := by
  rw [names_addVariable]
  split
  · exact h
  · rename_i hv
    exact h.append (List.nodup_singleton _) (List.disjoint_singleton.mpr hv)

theorem nodup_foldl_addVariable (added : List Variable) {vars : List Variable}
    (h : (vars.map (·.name)).Nodup) : ((added.foldl addVariable vars).map (·.name)).Nodup := by
  induction added generalizing vars with
  | nil => exact h
  | cons v added ih => exact ih (nodup_addVariable h v)

/-- Of the variables that are added, those with new names go behind the others, each name once. -/
theorem names_foldl_addVariable (added vars : List Variable) :
    (added.foldl addVariable vars).map (·.name) = vars.map (·.name) ++
      ((added.map (·.name)).filter (· ∉ vars.map (·.name))).eraseDups := by
  induction added generalizing vars with
  | nil => simp
  | cons v added ih =>
      rw [List.foldl_cons, ih, names_addVariable, List.map_cons]
      by_cases hv : v.name ∈ vars.map (·.name)
      · rw [if_pos hv, List.filter_cons_of_neg (by simpa using hv)]
      · have hlater : (added.map (·.name)).filter (· ∉ vars.map (·.name) ++ [v.name]) =
            ((added.map (·.name)).filter (· ∉ vars.map (·.name))).filter (!· == v.name) := by
          rw [List.filter_filter]
          apply List.filter_congr
          intro name _
          by_cases hname : name = v.name <;> simp [hname]
        rw [if_neg hv, List.filter_cons_of_pos (by simpa using hv), List.eraseDups_cons, hlater,
          List.append_assoc, List.singleton_append]

theorem variablesOf_eq_ok_iff {path : String} {vars : List Variable} :
    variablesOf path = .ok vars ↔ path.toList.getLast? ≠ some '/' ∧
      vars = ((groups path).map Variable.ofGroup).foldl addVariable [] := by
  unfold variablesOf
  by_cases h : path.toList.getLast? = some '/'
  · simp [h]
  · simp [h, @eq_comm _ vars]

theorem nodup_variablesOf {path : String} {vars : List Variable} (h : variablesOf path = .ok vars) :
    (vars.map (·.name)).Nodup := by
  obtain ⟨-, rfl⟩ := variablesOf_eq_ok_iff.mp h
  exact nodup_foldl_addVariable _ List.nodup_nil

/-- The variables of a path have the names of its groups, in order of first appearance. -/
theorem names_variablesOf {path : String} {vars : List Variable} (h : variablesOf path = .ok vars) :
    vars.map (·.name) = (groupNames path).eraseDups := by
  obtain ⟨-, rfl⟩ := variablesOf_eq_ok_iff.mp h
  rw [names_foldl_addVariable, List.map_map, groupNames]
  simp only [List.map_nil, List.nil_append, List.not_mem_nil, not_false_eq_true, decide_true,
    List.filter_true]
  rfl

end RestScaffold.PathTemplate
