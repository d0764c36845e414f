import RestScaffold.Proofs.FirstFault
import RestScaffold.Proofs.PathExpression

/-! # Variables of a path

What the variables of a path are, told from its groups: each group is cut behind its longest run of
name characters, a name that comes again keeps its place, and its last pattern counts.

* `Splits`, `splits_iff`: the name and the pattern of a group;
* `Binds`, `binds_iff`: the variables of names and patterns, in order;
* `IsVariables`, `isVariables_iff`: every path has one list of variables, and it is the one that is
  computed;
* `variables_follow_grammar`: which paths are refused, and what the others give. -/

namespace RestScaffold.PathTemplate

/-! ### Names and patterns -/

/-- Cutting the content of a group gives the name and the pattern: the name characters at its front
without the blanks around them, and what follows behind at most one equals sign. -/
def Splits (content : List Char) (part : String × List Char) : Prop :=
  ∃ front back, content = front ++ back ∧ (∀ c ∈ front, isNameChar c = true) ∧
    (∀ c, back.head? = some c → isNameChar c = false) ∧ Text.Trims front part.1 ∧
    (back = '=' :: part.2 ∨ (back = part.2 ∧ part.2.head? ≠ some '='))

/-- The content of a group. -/
def Segment.content : Segment → Option (List Char)
  | .plain _ => none
  | .group content => some content

theorem groups_eq (path : String) :
    groups path = (segments path.toList).filterMap Segment.content := by
  unfold groups
  apply List.filterMap_congr
  intro s _
  cases s <;> rfl

theorem afterEquals_eq_iff {back pattern : List Char} : afterEquals back = pattern ↔
    back = '=' :: pattern ∨ (back = pattern ∧ pattern.head? ≠ some '=') := by
  unfold afterEquals
  split
  · rename_i cs
    simp [eq_comm]
    rintro rfl
    simp
  · rename_i hne
    constructor
    · rintro rfl
      refine .inr ⟨rfl, fun h => ?_⟩
      obtain ⟨cs, rfl⟩ := List.head?_eq_some_iff.mp h
      exact hne cs rfl
    · rintro (rfl | ⟨rfl, -⟩)
      · exact absurd rfl (hne _)
      · rfl

theorem splits_iff {content : List Char} {part : String × List Char} :
    Splits content part ↔ (groupName content, groupPattern content) = part := by
  obtain ⟨name, pattern⟩ := part
  rw [Prod.mk.injEq, groupName, groupPattern_eq, afterEquals_eq_iff, ← Text.trims_iff]
  constructor
  · rintro ⟨front, back, rfl, hfront, hback, hname, hpattern⟩
    have hstop : back.takeWhile isNameChar = [] ∧ back.dropWhile isNameChar = back := by
      cases back with
      | nil => exact ⟨rfl, rfl⟩
      | cons c back => simp [hback c rfl]
    rw [List.takeWhile_append_of_pos hfront, List.dropWhile_append_of_pos hfront, hstop.1, hstop.2,
      List.append_nil]
    exact ⟨hname, hpattern⟩
  · rintro ⟨hname, hpattern⟩
    refine ⟨_, _, List.takeWhile_append_dropWhile.symm, fun c hc => List.mem_takeWhile_imp hc,
      fun c hc => ?_, hname, hpattern⟩
    simpa [hc] using List.head?_dropWhile_not isNameChar content

/-! ### Names that come again -/

/-- The variables have the names, each once, in order of first appearance, and each has the last
pattern of its name; an empty one is none. -/
structure Binds (parts : List (String × List Char)) (vars : List Variable) : Prop where
  names : vars.map (·.name) = (parts.map Prod.fst).eraseDups
  pattern : ∀ v ∈ vars, ∃ part, IsLast (·.1 = v.name) parts part ∧
    v.pattern = if part.2 = [] then none else some (String.ofList part.2)

/-- The variable of a name and a pattern. -/
def Variable.ofPart (part : String × List Char) : Variable :=
  ⟨part.1, if part.2 = [] then none else some (String.ofList part.2)⟩

theorem mem_addVariable {vars : List Variable} {v w : Variable} :
    v ∈ addVariable vars w ↔ v = w ∨ (v ∈ vars ∧ v.name ≠ w.name) := by
  unfold addVariable
  split
  · rename_i hany
    obtain ⟨old, hold, hname⟩ : ∃ old ∈ vars, old.name = w.name := by simpa using hany
    rw [List.mem_map]
    constructor
    · rintro ⟨u, hu, rfl⟩
      by_cases h : u.name = w.name
      · exact .inl (if_pos h)
      · rw [if_neg h]
        exact .inr ⟨hu, h⟩
    · rintro (rfl | ⟨hv, h⟩)
      · exact ⟨old, hold, if_pos hname⟩
      · exact ⟨v, hv, if_neg h⟩
  · rename_i hany
    have hnew : v ∈ vars → v.name ≠ w.name := by
      intro hv h
      exact hany (List.any_eq_true.mpr ⟨v, hv, by simpa using h⟩)
    rw [List.mem_append, List.mem_singleton, or_comm]
    exact or_congr_right ⟨fun hv => ⟨hv, hnew hv⟩, And.left⟩

/-- Of the variables that are added one after the other, the last one of each name is left. -/
theorem mem_foldl_addVariable {added vars : List Variable} {v : Variable} :
    v ∈ added.foldl addVariable vars ↔
      IsLast (·.name = v.name) added v ∨ (v ∈ vars ∧ ∀ w ∈ added, w.name ≠ v.name) := by
  induction added generalizing vars with
  | nil => simp [isLast_nil]
  | cons w added ih =>
      rw [List.foldl_cons, ih, isLast_cons, mem_addVariable, List.forall_mem_cons]
      constructor
      · rintro (h | ⟨rfl | ⟨hv, hne⟩, hlater⟩)
        · exact .inl (.inl h)
        · exact .inl (.inr ⟨rfl, rfl, hlater⟩)
        · exact .inr ⟨hv, hne.symm, hlater⟩
      · rintro ((h | ⟨rfl, -, hlater⟩) | ⟨hv, hne, hlater⟩)
        · exact .inl h
        · exact .inr ⟨.inl rfl, hlater⟩
        · exact .inr ⟨.inr ⟨hv, hne.symm⟩, hlater⟩

theorem binds_foldl (parts : List (String × List Char)) :
    Binds parts ((parts.map Variable.ofPart).foldl addVariable []) where
  names := by
    rw [names_foldl_addVariable, List.map_map]
    simp only [List.map_nil, List.nil_append, List.not_mem_nil, not_false_eq_true, decide_true,
      List.filter_true]
    rfl
  pattern := by
    intro v hv
    rcases mem_foldl_addVariable.mp hv with ⟨before, after, hparts, -, hafter⟩ | ⟨hv, -⟩
    · obtain ⟨early, rest, rfl, rfl, hrest⟩ := List.map_eq_append_iff.mp hparts
      obtain ⟨part, late, rfl, rfl, rfl⟩ := List.map_eq_cons_iff.mp hrest
      refine ⟨part, ⟨early, late, rfl, rfl, fun other hother => ?_⟩, rfl⟩
      exact hafter _ (List.mem_map_of_mem hother)
    · exact absurd hv List.not_mem_nil

theorem eq_of_map_eq {α β : Type} {f : α → β} : ∀ {xs ys : List α}, xs.map f = ys.map f →
    (∀ x ∈ xs, ∀ y ∈ ys, f x = f y → x = y) → xs = ys
  | [], [], _, _ => rfl
  | x :: xs, y :: ys, h, hf => by
      obtain ⟨hhead, htail⟩ := List.cons.inj h
      rw [hf x List.mem_cons_self y List.mem_cons_self hhead, eq_of_map_eq htail fun x hx y hy =>
        hf x (List.mem_cons_of_mem _ hx) y (List.mem_cons_of_mem _ hy)]

theorem Binds.unique {parts : List (String × List Char)} {vars vars' : List Variable}
    (h : Binds parts vars) (h' : Binds parts vars') : vars = vars' := by
  refine eq_of_map_eq (h.names.trans h'.names.symm) fun v hv w hw hname => ?_
  obtain ⟨part, hlast, hpattern⟩ := h.pattern v hv
  obtain ⟨other, hlast', hpattern'⟩ := h'.pattern w hw
  obtain ⟨name, pattern⟩ := v
  obtain ⟨name', pattern'⟩ := w
  obtain rfl : name = name' := hname
  obtain rfl : part = other := hlast.unique hlast'
  rw [Variable.mk.injEq]
  exact ⟨rfl, hpattern.trans hpattern'.symm⟩

theorem binds_iff {parts : List (String × List Char)} {vars : List Variable} :
    Binds parts vars ↔ (parts.map Variable.ofPart).foldl addVariable [] = vars := by
  constructor
  · exact fun h => (binds_foldl parts).unique h
  · rintro rfl
    exact binds_foldl parts

/-! ### Paths -/

/-- The variables of a path: its groups from left to right, each cut into name and pattern, bind
them. -/
def IsVariables (path : String) (vars : List Variable) : Prop :=
  ∃ ss parts, Reads path.toList ss ∧ List.Forall₂ Splits (ss.filterMap Segment.content) parts ∧
    Binds parts vars

/-- Every path has one list of variables, and it is the one that is computed. -/
theorem isVariables_iff {path : String} {vars : List Variable} :
    IsVariables path vars ↔ ((groups path).map Variable.ofGroup).foldl addVariable [] = vars := by
  have hparts : (groups path).map Variable.ofGroup =
      ((groups path).map fun content => (groupName content, groupPattern content)).map
        Variable.ofPart := by
    rw [List.map_map]
    rfl
  have hsplits : ∀ {parts}, List.Forall₂ Splits (groups path) parts ↔
      (groups path).map (fun content => (groupName content, groupPattern content)) = parts :=
    forall₂_iff_map_eq fun content part => @splits_iff content part
  rw [hparts, ← binds_iff]
  constructor
  · rintro ⟨ss, parts, hss, hall, hvars⟩
    obtain rfl := reads_iff.mp hss
    rw [← groups_eq] at hall
    rwa [hsplits.mp hall]
  · exact fun h => ⟨_, _, reads_segments path.toList, groups_eq path ▸ hsplits.mpr rfl, h⟩

/-- What is made of a path. -/
structure FollowsGrammar (path : String) : Prop where
  /-- The only fault is a slash at the end. -/
  refused : ∀ fault, variablesOf path = .error fault ↔
    path.toList.getLast? = some '/' ∧ fault = .trailingSlash path
  accepted : path.toList.getLast? ≠ some '/' →
    ∃ vars, variablesOf path = .ok vars ∧ ∀ other, IsVariables path other ↔ other = vars
  /-- The groups are what the expression for groups finds, with its names and patterns. -/
  found : ∃ ss, Reads path.toList ss ∧
    scan groupExpression path.toList = ss.map Segment.piece
  /-- Two paths with the same groups in other surroundings have the same variables. -/
  outside : ∀ other ss ss', Reads path.toList ss → Reads other.toList ss' →
    ss.filterMap Segment.content = ss'.filterMap Segment.content →
    path.toList.getLast? ≠ some '/' → other.toList.getLast? ≠ some '/' →
    variablesOf other = variablesOf path

/-- **Variables follow the grammar.** A path that ends in a slash is refused. Any other path has the
variables that its groups bind. -/
theorem variables_follow_grammar (path : String) : FollowsGrammar path where
  refused := fun fault => by
    unfold variablesOf
    split
    · rename_i h
      simp [h, @eq_comm _ fault]
    · rename_i h
      simp [h]
  accepted := fun h => by
    refine ⟨_, variablesOf_eq_ok_iff.mpr ⟨h, rfl⟩, fun other => ?_⟩
    rw [isVariables_iff, eq_comm]
  found := ⟨_, reads_segments path.toList, scan_groupExpression (reads_segments path.toList)⟩
  outside := by
    intro other ss ss' hss hss' hcontents h h'
    have hgroups : groups other = groups path := by
      rw [groups_eq, groups_eq, reads_iff.mp hss, reads_iff.mp hss', hcontents]
    rw [variablesOf, variablesOf, if_neg h, if_neg h', hgroups]

example : variablesOf "\x7d/\x7ba=\x7b a =x\x7d/\x7bb\x7d/\x7bA==*\x7d\x7bB,c\x7d/\x7ba\x7d" =
    .ok [⟨"a", none⟩, ⟨"b", none⟩, ⟨"A", some "=*"⟩, ⟨"B", some ",c"⟩] := by
  decide +kernel

end RestScaffold.PathTemplate
