import RestScaffold.Proofs.Bindings
import RestScaffold.Proofs.PathReading
import RestScaffold.Proofs.Trimming

/-! # Mapped paths

A controller is mapped to a path whose groups are cut down to their names. That path is read the
same way as the one it was made from, so it binds the same variables.

* `groupName_groupName`: a name is the name of the group that it is written in;
* `Reads.bare`: cutting the groups down makes no group, joins no two and loses none;
* `MappingFaithful`: what mapping keeps of a path;
* `mapping_keeps_variables`: mapping keeps it for every path, and the variables of an endpoint's
  mapping are its parameters from the path. -/

namespace RestScaffold

namespace PathTemplate

/-! ### Names of groups -/

theorem notBrace_of_isNameChar {c : Char} (h : isNameChar c = true) : notBrace c = true := by
  have hopen : c ≠ '{' := by
    rintro rfl
    exact absurd h (by decide)
  have hclose : c ≠ '}' := by
    rintro rfl
    exact absurd h (by decide)
  simp [notBrace, hopen, hclose]

theorem isNameChar_of_mem_groupName {content : List Char} :
    ∀ c ∈ (groupName content).toList, isNameChar c = true := by
  intro c hc
  rw [groupName, String.toList_ofList] at hc
  exact List.mem_takeWhile_imp ((Text.trimEnds_sublist _ _).subset hc)

theorem groupName_groupName (content : List Char) :
    groupName (groupName content).toList = groupName content := by
  have hall : ∀ c ∈ (groupName content).toList, isNameChar c = true := isNameChar_of_mem_groupName
  rw [groupName, List.takeWhile_eq_self_iff.mpr hall, groupName, String.toList_ofList,
    Text.trimEnds_trimEnds]

theorem ofGroup_groupName (content : List Char) :
    Variable.ofGroup (groupName content).toList = ⟨groupName content, none⟩ := by
  have hnone : groupPattern (groupName content).toList = [] := by
    unfold groupPattern
    rw [List.dropWhile_eq_nil_iff.mpr isNameChar_of_mem_groupName]
  simp [Variable.ofGroup, groupName_groupName, hnone]

/-! ### Segments without patterns -/

/-- The segment with a group cut down to its name. -/
def Segment.bare : Segment → Segment
  | .plain c => .plain c
  | .group content => .group (groupName content).toList

theorem Segment.bare_bare (s : Segment) : s.bare.bare = s.bare := by
  cases s with
  | plain c => rfl
  | group content => simp [bare, groupName_groupName]

theorem Segment.mapping_eq (s : Segment) : s.mapping = s.bare.text := by
  cases s <;> rfl

theorem Segment.getLast?_bare (s : Segment) : s.bare.text.getLast? = s.text.getLast? := by
  cases s with
  | plain c => rfl
  | group content =>
      rw [bare, text, text, List.getLast?_concat, List.getLast?_concat]

theorem toList_mapping (path : String) :
    (mapping path).toList = ((segments path.toList).map Segment.bare).flatMap Segment.text := by
  rw [mapping, String.toList_ofList, List.flatMap_map]
  exact congrArg (List.flatMap · _) (funext Segment.mapping_eq)

/-- Cutting the groups down changes nothing about the first brace. -/
theorem closes_bare {cs : List Char} {ss : List Segment} (h : Reads cs ss) :
    Closes ((ss.map Segment.bare).flatMap Segment.text) ↔ Closes cs := by
  induction h with
  | nil => rfl
  | plain _ _ ih =>
      rw [List.map_cons, List.flatMap_cons, Segment.bare, Segment.text, List.singleton_append,
        closes_cons, closes_cons, ih]
  | group _ _ _ =>
      rw [List.map_cons, List.flatMap_cons]
      exact iff_of_false not_closes_open not_closes_open

/-- A path whose groups are cut down to their names is read as the same segments, cut down. -/
theorem Reads.bare {cs : List Char} {ss : List Segment} (h : Reads cs ss) :
    Reads ((ss.map Segment.bare).flatMap Segment.text) (ss.map Segment.bare) := by
  induction h with
  | nil => exact .nil
  | plain hc hs ih => exact .plain (fun heq => mt (closes_bare hs).mp (hc heq)) ih
  | @group content cs ss _ _ ih =>
      have hname : ∀ c ∈ (groupName content).toList, notBrace c = true :=
        fun c hc => notBrace_of_isNameChar (isNameChar_of_mem_groupName c hc)
      have htext : ((Segment.group content :: ss).map Segment.bare).flatMap Segment.text =
          '{' :: ((groupName content).toList ++ '}' ::
            (ss.map Segment.bare).flatMap Segment.text) := by
        simp [Segment.bare, Segment.text]
      rw [htext]
      exact .group hname ih

theorem segments_mapping (path : String) :
    segments (mapping path).toList = (segments path.toList).map Segment.bare := by
  rw [toList_mapping]
  exact reads_iff.mp (reads_segments path.toList).bare

/-! ### Mapped paths -/

theorem mapping_mapping (path : String) : mapping (mapping path) = mapping path := by
  have hbare : Segment.bare ∘ Segment.bare = Segment.bare := funext Segment.bare_bare
  rw [← String.toList_inj, toList_mapping, segments_mapping, List.map_map, hbare, toList_mapping]

example : mapping "/v1/\x7bname=shelves/*\x7d/\x7b book \x7d" = "/v1/{name}/{book}" := by
  decide +kernel

theorem getLast?_mapping (path : String) :
    (mapping path).toList.getLast? = path.toList.getLast? := by
  have htext := (reads_segments path.toList).text_eq
  have hlast : (fun s : Segment => s.bare.text.getLast?) = fun s => s.text.getLast? :=
    funext Segment.getLast?_bare
  calc (mapping path).toList.getLast?
      = (segments path.toList).reverse.findSome? fun s => s.bare.text.getLast? := by
        rw [toList_mapping, List.flatMap_map, List.getLast?_flatMap]
    _ = ((segments path.toList).flatMap Segment.text).getLast? := by
        rw [hlast, List.getLast?_flatMap]
    _ = path.toList.getLast? := by rw [htext]

theorem groups_mapping (path : String) :
    groups (mapping path) = (groups path).map fun content => (groupName content).toList := by
  unfold groups
  rw [segments_mapping, List.filterMap_map, List.map_filterMap]
  apply List.filterMap_congr
  intro s _
  cases s <;> rfl

/-- The variable without its pattern. -/
def Variable.bare (v : Variable) : Variable :=
  { v with pattern := none }

theorem addVariable_bare (vars : List Variable) (v : Variable) :
    addVariable (vars.map Variable.bare) v.bare = (addVariable vars v).map Variable.bare := by
  have hany : (vars.map Variable.bare).any (·.name = v.bare.name) =
      vars.any (·.name = v.name) := by
    rw [List.any_map]
    rfl
  unfold addVariable
  rw [hany]
  split
  · rw [List.map_map, List.map_map]
    apply List.map_congr_left
    intro w _
    by_cases hw : w.name = v.name <;> simp [Variable.bare, hw]
  · rw [List.map_append, List.map_cons, List.map_nil]

theorem variablesOf_mapping {path : String} {vars : List Variable}
    (h : variablesOf path = .ok vars) :
    variablesOf (mapping path) = .ok (vars.map Variable.bare) := by
  obtain ⟨hslash, rfl⟩ := variablesOf_eq_ok_iff.mp h
  have hgroups : (groups (mapping path)).map Variable.ofGroup =
      ((groups path).map Variable.ofGroup).map Variable.bare := by
    rw [groups_mapping, List.map_map, List.map_map]
    apply List.map_congr_left
    intro content _
    exact ofGroup_groupName content
  refine variablesOf_eq_ok_iff.mpr ⟨by rwa [getLast?_mapping], ?_⟩
  rw [hgroups, List.foldl_map (f := Variable.bare)]
  exact (List.foldl_hom (List.map Variable.bare) addVariable_bare).symm

/-- What mapping keeps of a path. -/
structure MappingFaithful (path : String) : Prop where
  idempotent : mapping (mapping path) = mapping path
  /-- Path and mapped path have the same plain characters, and between them the same groups but
  for their patterns. -/
  inPlace : ∃ ss, Reads path.toList ss ∧ Reads (mapping path).toList (ss.map Segment.bare)
  slash : (mapping path).toList.getLast? = some '/' ↔ path.toList.getLast? = some '/'
  sameNames : ∀ vars, variablesOf path = .ok vars → ∃ mapped,
    variablesOf (mapping path) = .ok mapped ∧ mapped.map (·.name) = vars.map (·.name) ∧
      ∀ v ∈ mapped, v.pattern = none

theorem mappingFaithful (path : String) : MappingFaithful path where
  idempotent := mapping_mapping path
  inPlace := by
    refine ⟨segments path.toList, reads_segments path.toList, ?_⟩
    rw [toList_mapping]
    exact (reads_segments path.toList).bare
  slash := by rw [getLast?_mapping]
  sameNames := fun vars h => by
    refine ⟨vars.map Variable.bare, variablesOf_mapping h, ?_, ?_⟩
    · rw [List.map_map]
      rfl
    · intro v hv
      obtain ⟨w, -, rfl⟩ := List.mem_map.mp hv
      rfl

end PathTemplate

namespace Target

open Contract (Method)
open Http (Verb)
open PathTemplate (variablesOf MappingFaithful)

/-! ### Mapped endpoints -/

theorem mapping_verb_inj {verb : Verb} {path path' : String}
    (h : verb.mapping path = verb.mapping path') : path = path' := by
  unfold Verb.mapping at h
  cases verb <;> simpa only [String.append_left_inj, String.append_right_inj] using h

theorem binding_eq_path_iff {p : Parameter} {name : String} :
    p.binding = "@PathVariable(\"" ++ name ++ "\")" ↔ p.origin = .path name := by
  have hother : ∀ rest : String,
      "@RequestParam(name = \"" ++ rest ≠ "@PathVariable(\"" ++ name ++ "\")" := by
    intro rest h
    have hsecond := congrArg (fun s : String => s.toList[1]?) h
    simp at hsecond
  unfold Parameter.binding
  cases p.origin with
  | path other => simp
  | query other required =>
      refine iff_of_false ?_ (by simp)
      cases required with
      | false => exact fun h => hother _ (String.append_assoc.symm.trans h)
      | true => exact fun h => hother _ (String.append_assoc.symm.trans h)
  | body =>
      refine iff_of_false (fun h => ?_) (by simp)
      have hsecond := congrArg (fun s : String => s.toList[1]?) h
      simp at hsecond

/-- The parameters of an endpoint that come from the path are those of the path's variables. -/
theorem Endpoint.exists_origin_path_iff {m : Method} {e : Endpoint}
    (h : Endpoint.ofMethod m = .ok e) : ∃ vars, variablesOf e.path = .ok vars ∧
      ∀ name, (∃ p ∈ e.parameters, p.origin = .path name) ↔ ∃ v ∈ vars, v.name = name := by
  have hcases := fun p hp => parameter_cases h (p := p) hp
  obtain ⟨-, vars, path, body, reply, hvars, hpath, -, -, rfl⟩ := ofMethod_eq_ok_iff.mp h
  have hall := pathParameters_eq_ok_iff.mp hpath
  refine ⟨vars, hvars, fun name => ⟨?_, ?_⟩⟩
  · rintro ⟨p, hp, horigin⟩
    rcases hcases p hp with hp | ⟨-, f, -, rfl⟩ | ⟨-, rfl⟩ | ⟨-, f, -, -, rfl⟩
    · obtain ⟨v, hv, f, -, rfl⟩ := exists_left_of_forall₂ hall p hp
      exact ⟨v, hv, Origin.path.inj horigin⟩
    · exact Origin.noConfusion horigin
    · exact Origin.noConfusion horigin
    · exact Origin.noConfusion horigin
  · rintro ⟨v, hv, rfl⟩
    obtain ⟨p, hp, f, -, rfl⟩ := exists_right_of_forall₂ hall v hv
    exact ⟨_, List.mem_append_left _ (List.mem_append_left _ hp), rfl⟩

/-- The path of an endpoint's mapping has the variables that are bound to parameters. -/
structure MappedVariables (e : Endpoint) : Prop where
  mapped : ∃ path, e.mapping = e.verb.mapping path
  bound : ∀ path, e.mapping = e.verb.mapping path → ∃ vars, variablesOf path = .ok vars ∧
    ∀ name, (∃ v ∈ vars, v.name = name) ↔
      ∃ p ∈ e.parameters, p.binding = "@PathVariable(\"" ++ name ++ "\")"

theorem Endpoint.mappedVariables {m : Method} {e : Endpoint} (h : Endpoint.ofMethod m = .ok e) :
    MappedVariables e where
  mapped := ⟨_, rfl⟩
  bound := fun path hpath => by
    obtain ⟨vars, hvars, hnames⟩ := exists_origin_path_iff h
    obtain ⟨mapped, hmapped, hsame, -⟩ := (PathTemplate.mappingFaithful e.path).sameNames vars hvars
    obtain rfl : PathTemplate.mapping e.path = path := mapping_verb_inj hpath
    refine ⟨mapped, hmapped, fun name => ?_⟩
    have hmem : (∃ v ∈ mapped, v.name = name) ↔ ∃ v ∈ vars, v.name = name := by
      rw [← List.mem_map, hsame, List.mem_map]
    simp only [hmem, ← hnames, binding_eq_path_iff]

/-- **Mapping keeps the variables.** Mapping cuts the groups of a path down to their names and
keeps everything else in place, and the path that an endpoint is mapped to has just the variables
that the endpoint takes from the path. -/
theorem mapping_keeps_variables :
    (∀ path, MappingFaithful path) ∧
      ∀ (m : Method) (e : Endpoint), Endpoint.ofMethod m = .ok e → MappedVariables e :=
  ⟨PathTemplate.mappingFaithful, fun _ _ h => Endpoint.mappedVariables h⟩

/-- A method whose path has a variable twice, with blanks and with patterns, and a brace that opens
nothing. -/
def tripMethod : Method where
  name := "GetTrip"
  fullName := "trips.Trips.GetTrip"
  input := {
    name := "GetTripRequest"
    fullName := "trips.GetTripRequest"
    file := "trips.proto"
    package := "trips.dto"
    fields :=
      [⟨"stop", .scalar .string, .single, false, ""⟩,
       ⟨"lang", .scalar .string, .single, true, ""⟩,
       ⟨"trip id", .scalar .int64, .single, false, ""⟩] }
  output := {
    name := "Trip"
    fullName := "trips.Trip"
    file := "trips.proto"
    package := "trips.dto" }
  rule := some {
    pattern := some ⟨.get, "/\x7b trip id =a/*\x7d\x7d/\x7b\x7bstop=b/*\x7d/\x7btrip id\x7d:get"⟩ }

/-- The path is mapped to `/{trip id}}/{{stop}/{trip id}:get`. -/
theorem mapping_keeps_variables_tripMethod : ∃ e, Endpoint.ofMethod tripMethod = .ok e ∧
    MappingFaithful e.path ∧ MappedVariables e := by
  obtain ⟨e, he⟩ := exists_ok_of_isOk (x := Endpoint.ofMethod tripMethod) (by decide +kernel)
  exact ⟨e, he, mapping_keeps_variables.1 e.path, mapping_keeps_variables.2 tripMethod e he⟩

end Target

end RestScaffold
