import Mathlib.Data.List.Nodup
import RestScaffold.Proofs.HandlerVariables

/-! # Fields and their parameters

An endpoint hands the fields of the request to the path, the query and the body in three passes that
know nothing of each other.

* `Classified`, `Endpoint.classified_of_ofMethod`: the parameters that the passes make, and the
  fields that get one;
* `Counted`, `Endpoint.counted_of_ofMethod`: how many parameters there are for a field, and when
  there are as many parameters as fields. -/

namespace RestScaffold.Target

open Contract (Message Method Field)
open Http (Rule wholeMessage)
open Naming (memberName)
open PathTemplate (Variable groupNames)

variable {m : Method} {e : Endpoint}

/-! ### Parameters for fields -/

/-- The names of the parameters from the path. -/
def Endpoint.pathNames (e : Endpoint) : List String :=
  e.pathParameters.map (·.name)

/-- Does a parameter bring the value of a field? A body that is the whole request brings all of
them. -/
def Parameter.Carries (m : Method) (p : Parameter) (f : Field) : Prop :=
  p.Binds m f ∨ f ∈ m.input.fields ∧ p.isBody = true ∧ (effectiveRule m).body = wholeMessage

/-- A field without a name, where there is no body. The query leaves it out as if it were the body,
so that it has no parameter unless a variable of the path has no name either. -/
def Endpoint.Drops (m : Method) (e : Endpoint) (f : Field) : Prop :=
  (effectiveRule m).body = "" ∧ f.name = "" ∧ f.name ∉ e.pathNames

instance (f : Field) : Decidable (e.Drops m f) :=
  inferInstanceAs (Decidable (_ ∧ _))

/-- A parameter for the field of the given name, with the field's type. -/
structure TakesField (input : Message) (origin : Origin) (name : String) (p : Parameter) :
    Prop where
  declared : ∃ f ∈ input.fields, f.name = name
  parameter : ∀ f ∈ input.fields, f.name = name → p = ⟨origin, .ofField f, name⟩

theorem takesField_of_field? {input : Message} {name : String} {f : Field} (origin : Origin)
    (hn : (fieldNames input).Nodup) (hf : input.field? name = some f) :
    TakesField input origin name ⟨origin, .ofField f, name⟩ := by
  obtain ⟨hmem, hname⟩ := field?_eq_some hf
  refine ⟨⟨f, hmem, hname⟩, fun g hg hgname => ?_⟩
  rw [List.inj_on_of_nodup_map hn hg hmem (hgname.trans hname.symm)]

section

variable {vars : List Variable} {path : List Parameter} {body : Option Parameter} {rule : Rule}
  {input : Message}

theorem map_name_path (h : pathParameters vars input = .ok path) :
    path.map (·.name) = vars.map (·.name) := by
  rw [← map_fieldName_path default h]
  exact List.map_congr_left fun p hp => (isQuery_of_mem_path default h hp).2

theorem map_fieldName_body (h : bodyParameter input rule = .ok body) :
    body.toList.map (Parameter.fieldName rule) = if rule.body = "" then [] else [rule.body] := by
  rcases bodyParameter_eq_ok_iff.mp h with ⟨he, rfl⟩ | ⟨hw, rfl⟩ | ⟨hne, -, f, -, -, rfl⟩
  · rw [if_pos he]
    rfl
  · rw [if_neg (by rw [hw]; decide)]
    rfl
  · rw [if_neg hne]
    rfl

theorem inQuery_iff {field : String} {f : Field} :
    inQuery vars field f = true ↔ f.name ∉ vars.map (·.name) ∧ f.name ≠ field := by
  simp [inQuery]

end

/-- The fields that are left to the query: those that are no variable of the path and not named by
the rule's body. -/
def Endpoint.leftFields (m : Method) (e : Endpoint) : List Field :=
  m.input.fields.filter fun f => f.name ∉ e.pathNames ∧ f.name ≠ (effectiveRule m).body

theorem Endpoint.mem_leftFields {f : Field} : f ∈ e.leftFields m ↔
    f ∈ m.input.fields ∧ f.name ∉ e.pathNames ∧ f.name ≠ (effectiveRule m).body := by
  rw [leftFields, List.mem_filter, decide_eq_true_eq]

theorem Endpoint.mem_map_leftFields {f : Field} (hf : f ∈ m.input.fields) :
    f.name ∈ (e.leftFields m).map (·.name) ↔
      f.name ∉ e.pathNames ∧ f.name ≠ (effectiveRule m).body := by
  constructor
  · intro hmem
    obtain ⟨g, hg, hname⟩ := List.mem_map.mp hmem
    rw [← hname]
    exact (mem_leftFields.mp hg).2
  · exact fun hleft => List.mem_map_of_mem (mem_leftFields.mpr ⟨hf, hleft⟩)

theorem Endpoint.pathNames_of_ofMethod (h : Endpoint.ofMethod m = .ok e) :
    e.pathNames.Nodup ∧ e.pathNames ⊆ fieldNames m.input := by
  constructor
  · obtain ⟨-, vars, path, body, reply, hvars, hpath, -, -, rfl⟩ := ofMethod_eq_ok_iff.mp h
    rw [pathNames, ofParts, map_name_path hpath]
    exact PathTemplate.nodup_variablesOf hvars
  · intro name hname
    obtain ⟨p, hp, rfl⟩ := List.mem_map.mp hname
    obtain ⟨f, hf, rfl⟩ := exists_of_mem_pathParameters h hp
    exact List.mem_map.mpr ⟨f, hf, rfl⟩

theorem Endpoint.queryParameters_of_ofMethod (h : Endpoint.ofMethod m = .ok e)
    (hw : (effectiveRule m).body ≠ wholeMessage) :
    e.queryParameters = (e.leftFields m).map queryParameter := by
  obtain ⟨-, vars, path, body, reply, -, hpath, -, -, rfl⟩ := ofMethod_eq_ok_iff.mp h
  have hleft : m.input.fields.filter (inQuery vars (effectiveRule m).body) =
      (ofParts m vars path body reply).leftFields m := by
    apply List.filter_congr
    intro f _
    rw [Bool.eq_iff_iff, inQuery_iff, decide_eq_true_eq, pathNames, ofParts, map_name_path hpath]
  rw [ofParts, Target.queryParameters, if_neg hw, hleft]
  rfl

/-- The fields that the parameters of an endpoint are for: the variables of the path, the fields
that are left, and the one that the rule's body names. -/
theorem Endpoint.map_fieldName_parameters (h : Endpoint.ofMethod m = .ok e)
    (hw : (effectiveRule m).body ≠ wholeMessage) :
    e.parameters.map (Parameter.fieldName (effectiveRule m)) =
      e.pathNames ++ (e.leftFields m).map (·.name) ++
        if (effectiveRule m).body = "" then [] else [(effectiveRule m).body] := by
  have hquery := queryParameters_of_ofMethod h hw
  obtain ⟨-, vars, path, body, reply, -, hpath, hbody, -, rfl⟩ := ofMethod_eq_ok_iff.mp h
  rw [parameters, List.map_append, List.map_append, hquery, List.map_map]
  rw [ofParts, pathNames, map_fieldName_path _ hpath, map_name_path hpath,
    map_fieldName_body hbody]
  rfl

/-! ### Classification -/

/-- How an endpoint takes the fields of the request. -/
structure Classified (m : Method) (e : Endpoint) : Prop where
  /-- One parameter for each variable of the path, in order of first appearance. -/
  path : List.Forall₂ (fun name p => TakesField m.input (.path name) name p)
    (groupNames (effectiveRule m).path).eraseDups e.pathParameters
  /-- A whole request in the body leaves nothing to the query. -/
  whole : (effectiveRule m).body = wholeMessage → e.queryParameters = [] ∧
    e.body = some ⟨.body, .declared m.input.ref, Text.lowerFirst m.input.name⟩
  /-- Else there is a body when the rule names one, and it is for the field of that name. -/
  body : (effectiveRule m).body ≠ wholeMessage →
    (e.body.isSome = true ↔ (effectiveRule m).body ≠ "") ∧
      ∀ p ∈ e.body, TakesField m.input .body (effectiveRule m).body p
  /-- The query has the other fields, in the order of their declaration. -/
  query : (effectiveRule m).body ≠ wholeMessage → e.queryParameters =
    (e.leftFields m).map fun f => ⟨.query f.name f.required, .ofField f, memberName f.name⟩
  /-- No field is in the query twice. -/
  once : (e.queryParameters.map (Parameter.fieldName (effectiveRule m))).Nodup
  /-- Every field has a parameter unless it is dropped. -/
  carried : ∀ f ∈ m.input.fields, (∃ p ∈ e.parameters, p.Carries m f) ↔ ¬ e.Drops m f
  /-- A field in the query is neither in the path nor in the body. -/
  apart : ∀ p ∈ e.queryParameters, ∀ q ∈ e.pathParameters ++ e.body.toList, ∀ f,
    p.Carries m f → ¬ q.Carries m f
  inOrder : e.parameters = e.pathParameters ++ e.queryParameters ++ e.body.toList

theorem Parameter.carries_iff {p : Parameter} {f : Field} (hf : f ∈ m.input.fields)
    (hw : (effectiveRule m).body ≠ wholeMessage) :
    p.Carries m f ↔ f.name = p.fieldName (effectiveRule m) := by
  simp [Carries, Binds, hf, hw]

theorem Endpoint.exists_carries_iff (h : Endpoint.ofMethod m = .ok e) {f : Field}
    (hf : f ∈ m.input.fields) : (∃ p ∈ e.parameters, p.Carries m f) ↔ ¬ e.Drops m f := by
  by_cases hw : (effectiveRule m).body = wholeMessage
  · have hkept : ¬ e.Drops m f := by
      intro hdrops
      exact absurd (hw.symm.trans hdrops.1) (by decide)
    refine iff_of_true ?_ hkept
    obtain ⟨-, vars, path, body, reply, -, -, hbody, -, rfl⟩ := ofMethod_eq_ok_iff.mp h
    obtain rfl := bodyParameter_of_whole hbody hw
    exact ⟨_, List.mem_append_right _ (List.mem_singleton_self _), Or.inr ⟨hf, rfl, hw⟩⟩
  · have hmem : (∃ p ∈ e.parameters, p.Carries m f) ↔
        f.name ∈ e.parameters.map (Parameter.fieldName (effectiveRule m)) := by
      simp only [Parameter.carries_iff hf hw, List.mem_map, @eq_comm _ f.name]
    rw [hmem, map_fieldName_parameters h hw, List.mem_append, List.mem_append,
      mem_map_leftFields hf, Drops]
    by_cases hempty : (effectiveRule m).body = ""
    · rw [if_pos hempty, hempty]
      simp only [List.not_mem_nil, or_false, true_and]
      tauto
    · rw [if_neg hempty, List.mem_singleton]
      simp only [hempty, false_and, not_false_eq_true, iff_true]
      tauto

theorem Endpoint.apart_of_mem_queryParameters (h : Endpoint.ofMethod m = .ok e) {p q : Parameter}
    (hp : p ∈ e.queryParameters) (hq : q ∈ e.pathParameters ++ e.body.toList) {f : Field}
    (hpf : p.Carries m f) : ¬ q.Carries m f := by
  have hf : f ∈ m.input.fields := hpf.elim (·.1) (·.1)
  obtain ⟨-, vars, path, body, reply, -, hpath, hbody, -, rfl⟩ := ofMethod_eq_ok_iff.mp h
  by_cases hw : (effectiveRule m).body = wholeMessage
  · rw [ofParts, queryParameters_of_whole _ _ hw] at hp
    exact absurd hp List.not_mem_nil
  · rw [queryParameters_of_ofMethod h hw] at hp
    obtain ⟨g, hg, rfl⟩ := List.mem_map.mp hp
    obtain ⟨-, hnotPath, hnotBody⟩ := mem_leftFields.mp hg
    have hfg : f.name = g.name := (Parameter.carries_iff hf hw).mp hpf
    rw [Parameter.carries_iff hf hw, hfg]
    rintro hname
    rcases List.mem_append.mp hq with hq | hq
    · apply hnotPath
      rw [hname, ← (isQuery_of_mem_path _ hpath hq).2]
      exact List.mem_map_of_mem hq
    · apply hnotBody
      rw [hname, (isQuery_of_mem_body hbody (Option.mem_toList.mp hq)).2.1]

/-- **Classification of fields.** An endpoint whose request has fields of different names takes
each of them from the path, the query or the body as the rule says. Only a field without a name is
dropped, where there is no body. -/
theorem Endpoint.classified_of_ofMethod (hn : (fieldNames m.input).Nodup)
    (h : Endpoint.ofMethod m = .ok e) : Classified m e := by
  have hquery := queryParameters_of_ofMethod h
  have hcarried := fun f hf => exists_carries_iff h (f := f) hf
  have hapart := fun p hp q hq f => apart_of_mem_queryParameters h (p := p) (q := q) hp hq (f := f)
  obtain ⟨-, vars, path, body, reply, hvars, hpath, hbody, -, rfl⟩ := ofMethod_eq_ok_iff.mp h
  refine ⟨?_, ?_, ?_, hquery, ?_, hcarried, hapart, rfl⟩
  · rw [← PathTemplate.names_variablesOf hvars, List.forall₂_map_left_iff]
    refine (pathParameters_eq_ok_iff.mp hpath).imp ?_
    rintro v p ⟨f, hf, rfl⟩
    exact takesField_of_field? _ hn hf
  · intro hw
    exact ⟨queryParameters_of_whole _ _ hw, bodyParameter_of_whole hbody hw⟩
  · intro hw
    rcases bodyParameter_eq_ok_iff.mp hbody with ⟨he, rfl⟩ | ⟨hwhole, -⟩ | ⟨hne, -, f, hf, -, rfl⟩
    · simp [ofParts, he]
    · exact absurd hwhole hw
    · refine ⟨by simp [ofParts, hne], ?_⟩
      rintro p hp
      obtain rfl := Option.some.inj hp
      exact takesField_of_field? _ hn hf
  · by_cases hw : (effectiveRule m).body = wholeMessage
    · rw [ofParts, queryParameters_of_whole _ _ hw]
      exact List.nodup_nil
    · rw [hquery hw, List.map_map]
      exact hn.sublist (List.filter_sublist.map _)

/-- A path that has a variable twice, with blanks and patterns, and a field in the body between two
in the query. -/
def planMethod : Method where
  name := "PlanTrip"
  fullName := "trips.Trips.PlanTrip"
  input := {
    name := "PlanTripRequest"
    fullName := "trips.PlanTripRequest"
    file := "trips.proto"
    package := "trips.dto"
    fields :=
      [⟨"max_stops", .scalar .int32, .single, true, ""⟩,
       ⟨"to", .scalar .string, .single, false, ""⟩,
       ⟨"plan", .message ⟨"Plan", "trips.Plan", "trips.dto"⟩, .single, false, ""⟩,
       ⟨"from", .scalar .string, .single, false, ""⟩,
       ⟨"dry_run", .scalar .bool, .single, false, ""⟩] }
  output := {
    name := "Trip"
    fullName := "trips.Trip"
    file := "trips.proto"
    package := "trips.dto" }
  rule := some { pattern := some ⟨.post, "/v1/{ from =stops/*}/{to}/{from}"⟩, body := "plan" }

theorem classified_planMethod : ∃ e, (fieldNames planMethod.input).Nodup ∧
    Endpoint.ofMethod planMethod = .ok e ∧ Classified planMethod e := by
  have hn : (fieldNames planMethod.input).Nodup := by decide +kernel
  obtain ⟨e, he⟩ := exists_ok_of_isOk (x := Endpoint.ofMethod planMethod) (by decide +kernel)
  exact ⟨e, hn, he, Endpoint.classified_of_ofMethod hn he⟩

/-- A method whose request has one field. -/
def oneFieldMethod (field : Field) (rule : Rule) : Method where
  name := "Visit"
  fullName := "p.Places.Visit"
  input := {
    name := "VisitRequest"
    fullName := "p.VisitRequest"
    file := "p.proto"
    package := "p.dto"
    fields := [field] }
  output := {
    name := "VisitReply"
    fullName := "p.VisitReply"
    file := "p.proto"
    package := "p.dto" }
  rule := some rule

/-- A field without a name has no parameter where there is no body. -/
theorem not_forall_fields_carried : ¬ ∀ (m : Method) (e : Endpoint),
    (fieldNames m.input).Nodup → Endpoint.ofMethod m = .ok e →
      ∀ f ∈ m.input.fields, ∃ p ∈ e.parameters, p.Carries m f := by
  intro hall
  have hnone : (match Endpoint.ofMethod (oneFieldMethod ⟨"", .scalar .string, .single, false, ""⟩
        ⟨"", some ⟨.get, "/v1/places"⟩, "", "", []⟩) with
      | .ok e => decide (e.parameters = [])
      | .error _ => false) = true := by
    decide +kernel
  split at hnone
  · rename_i e he
    obtain ⟨p, hp, -⟩ := hall _ e (by decide +kernel) he _ (List.mem_singleton_self _)
    rw [of_decide_eq_true hnone] at hp
    exact List.not_mem_nil hp
  · exact absurd hnone (by simp)

/-! ### Counting -/

/-- How many parameters are for the field of the given name. -/
def Endpoint.uses (m : Method) (e : Endpoint) (name : String) : Nat :=
  (e.parameters.map (Parameter.fieldName (effectiveRule m))).count name

/-- How many parameters an endpoint has, where the body is not the whole request. -/
structure Counted (m : Method) (e : Endpoint) : Prop where
  /-- There is one parameter for each field but the one that the rule's body names. That one is in
  the path if it is a variable, and in the body as well if it has a name. -/
  uses : ∀ f ∈ m.input.fields, e.uses m f.name =
    if f.name = (effectiveRule m).body then
      (if f.name ∈ e.pathNames then 1 else 0) + if f.name = "" then 0 else 1
    else 1
  /-- Each field has one parameter when the body is no variable of the path and none is dropped. -/
  once : (∀ f ∈ m.input.fields, e.uses m f.name = 1) ↔
    e.BodyApart ∧ ∀ f ∈ m.input.fields, ¬ e.Drops m f
  /-- There are as many parameters as fields under the same conditions. -/
  total : e.pathParameters.length + e.queryParameters.length + (if e.body.isSome then 1 else 0) =
      m.input.fields.length ↔
    e.BodyApart ∧ ∀ f ∈ m.input.fields, ¬ e.Drops m f

theorem perm_part_append {names part : List String} (hn : names.Nodup) (hp : part.Nodup)
    (hsub : part ⊆ names) (one : String) :
    names.Perm (part ++ (names.filter fun a => a ∉ part ∧ a ≠ one) ++
      if one ∈ names ∧ one ∉ part then [one] else []) := by
  have hrest : (part ++ names.filter fun a => a ∉ part ∧ a ≠ one).Nodup := by
    refine hp.append (hn.filter _) ?_
    intro a ha hmem
    exact (of_decide_eq_true (List.mem_filter.mp hmem).2).1 ha
  by_cases hone : one ∈ names ∧ one ∉ part
  · rw [if_pos hone]
    have hnodup : (part ++ (names.filter fun a => a ∉ part ∧ a ≠ one) ++ [one]).Nodup := by
      refine hrest.append (List.nodup_singleton _) (List.disjoint_singleton.mpr ?_)
      simp [hone.2]
    refine (List.perm_ext_iff_of_nodup hn hnodup).mpr fun a => ?_
    by_cases ha : a = one
    · simp [ha, hone.1]
    · by_cases hpart : a ∈ part
      · simp [hpart, hsub hpart]
      · simp [ha, hpart]
  · rw [if_neg hone, List.append_nil]
    refine (List.perm_ext_iff_of_nodup hn hrest).mpr fun a => ?_
    by_cases hpart : a ∈ part
    · simp [hpart, hsub hpart]
    · have hne : a ∈ names → a ≠ one := by
        rintro ha rfl
        exact hone ⟨ha, hpart⟩
      simpa [hpart] using hne

theorem Endpoint.map_name_leftFields (m : Method) (e : Endpoint) :
    (e.leftFields m).map (·.name) = (fieldNames m.input).filter fun name =>
      name ∉ e.pathNames ∧ name ≠ (effectiveRule m).body := by
  rw [leftFields, fieldNames, List.filter_map]
  rfl

theorem Endpoint.body_mem_fieldNames (h : Endpoint.ofMethod m = .ok e)
    (hw : (effectiveRule m).body ≠ wholeMessage) (hne : (effectiveRule m).body ≠ "") :
    (effectiveRule m).body ∈ fieldNames m.input := by
  obtain ⟨-, vars, path, body, reply, -, -, hbody, -, -⟩ := ofMethod_eq_ok_iff.mp h
  obtain ⟨f, hf, -⟩ := bodyParameter_of_field hbody hw hne
  obtain ⟨hmem, hname⟩ := field?_eq_some hf
  exact List.mem_map.mpr ⟨f, hmem, hname⟩

theorem Endpoint.bodyApart_iff (h : Endpoint.ofMethod m = .ok e)
    (hw : (effectiveRule m).body ≠ wholeMessage) :
    e.BodyApart ↔ ((effectiveRule m).body ≠ "" → (effectiveRule m).body ∉ e.pathNames) := by
  obtain ⟨-, vars, path, body, reply, -, -, hbody, -, rfl⟩ := ofMethod_eq_ok_iff.mp h
  rcases bodyParameter_eq_ok_iff.mp hbody with ⟨he, rfl⟩ | ⟨hwhole, -⟩ | ⟨hne, -, f, -, -, rfl⟩
  · simp [BodyApart, ofParts, he]
  · exact absurd hwhole hw
  · simp [BodyApart, ofParts, pathNames, hw, hne]

theorem Endpoint.forall_not_drops_iff (m : Method) (e : Endpoint) :
    (∀ f ∈ m.input.fields, ¬ e.Drops m f) ↔
      ((effectiveRule m).body = "" → "" ∈ fieldNames m.input → "" ∈ e.pathNames) := by
  constructor
  · intro hall hbody hmem
    obtain ⟨f, hf, hname⟩ := List.mem_map.mp hmem
    by_contra hpath
    exact hall f hf ⟨hbody, hname, hname ▸ hpath⟩
  · rintro hpath f hf ⟨hbody, hname, hnot⟩
    exact hnot (hname ▸ hpath hbody (hname ▸ List.mem_map_of_mem hf))

theorem Endpoint.uses_eq (hn : (fieldNames m.input).Nodup) (h : Endpoint.ofMethod m = .ok e)
    (hw : (effectiveRule m).body ≠ wholeMessage) {f : Field} (hf : f ∈ m.input.fields) :
    e.uses m f.name =
      if f.name = (effectiveRule m).body then
        (if f.name ∈ e.pathNames then 1 else 0) + if f.name = "" then 0 else 1
      else 1 := by
  have hleft : ((e.leftFields m).map (·.name)).count f.name =
      if f.name ∉ e.pathNames ∧ f.name ≠ (effectiveRule m).body then 1 else 0 := by
    have hnodup : ((e.leftFields m).map (·.name)).Nodup :=
      hn.sublist (List.filter_sublist.map _)
    simp only [hnodup.count, mem_map_leftFields hf]
  rw [uses, map_fieldName_parameters h hw, List.count_append, List.count_append, hleft,
    (pathNames_of_ofMethod h).1.count]
  by_cases hbody : f.name = (effectiveRule m).body
  · have hnot : ¬ (f.name ∉ e.pathNames ∧ f.name ≠ f.name) := fun hboth => hboth.2 rfl
    rw [if_pos hbody, ← hbody, if_neg hnot, Nat.add_zero]
    by_cases hempty : f.name = "" <;> simp [hempty]
  · have hnot : (if (effectiveRule m).body = "" then [] else [(effectiveRule m).body]).count
        f.name = 0 := by
      by_cases hempty : (effectiveRule m).body = "" <;> simp [hempty, Ne.symm hbody]
    rw [if_neg hbody, hnot]
    by_cases hpath : f.name ∈ e.pathNames <;> simp [hpath, hbody]

/-- The field that the rule's body names is the only one that may have no parameter or two. -/
theorem Endpoint.apart_and_kept_iff (h : Endpoint.ofMethod m = .ok e)
    (hw : (effectiveRule m).body ≠ wholeMessage) :
    (e.BodyApart ∧ ∀ f ∈ m.input.fields, ¬ e.Drops m f) ↔
      ((effectiveRule m).body ∈ fieldNames m.input →
        ((effectiveRule m).body ∈ e.pathNames ↔ (effectiveRule m).body = "")) := by
  rw [bodyApart_iff h hw, forall_not_drops_iff]
  by_cases hempty : (effectiveRule m).body = ""
  · simp [hempty]
  · simp [hempty, body_mem_fieldNames h hw hempty]

/-- **Counting law.** An endpoint whose request has fields of different names, and is not the body
as a whole, has as many parameters as there are fields, one for each, unless the field in the body
is a variable of the path as well or a field without a name is dropped. -/
theorem Endpoint.counted_of_ofMethod (hn : (fieldNames m.input).Nodup)
    (hw : (effectiveRule m).body ≠ wholeMessage) (h : Endpoint.ofMethod m = .ok e) :
    Counted m e where
  uses := fun f hf => uses_eq hn h hw hf
  once := by
    have hone : ∀ f ∈ m.input.fields, e.uses m f.name = 1 ↔
        (f.name = (effectiveRule m).body → (f.name ∈ e.pathNames ↔ f.name = "")) := by
      intro f hf
      rw [uses_eq hn h hw hf]
      by_cases hpath : f.name ∈ e.pathNames <;> by_cases hempty : f.name = "" <;>
        simp [hpath, hempty]
    rw [apart_and_kept_iff h hw]
    constructor
    · intro hall hmem
      obtain ⟨f, hf, hname⟩ := List.mem_map.mp hmem
      rw [← hname]
      exact (hone f hf).mp (hall f hf) hname
    · intro hbody f hf
      refine (hone f hf).mpr fun hname => ?_
      rw [hname]
      exact hbody (hname ▸ List.mem_map_of_mem hf)
  total := by
    have hparameters : e.pathParameters.length + e.queryParameters.length +
        (if e.body.isSome then 1 else 0) =
          e.pathNames.length + ((e.leftFields m).map (·.name)).length +
            (if (effectiveRule m).body = "" then [] else [(effectiveRule m).body]).length := by
      have hbody : (if e.body.isSome then 1 else 0) = e.body.toList.length := by
        cases e.body <;> rfl
      rw [hbody]
      simp only [← List.length_append]
      rw [← map_fieldName_parameters h hw, List.length_map, parameters]
    have hfields : m.input.fields.length =
        e.pathNames.length + ((e.leftFields m).map (·.name)).length +
          (if (effectiveRule m).body ∈ fieldNames m.input ∧ (effectiveRule m).body ∉ e.pathNames
            then [(effectiveRule m).body] else []).length := by
      have hparts := perm_part_append hn (pathNames_of_ofMethod h).1 (pathNames_of_ofMethod h).2
        (effectiveRule m).body
      simp only [← List.length_append]
      rw [map_name_leftFields, ← hparts.length_eq, fieldNames, List.length_map]
    rw [apart_and_kept_iff h hw, hparameters, hfields, Nat.add_left_cancel_iff]
    by_cases hempty : (effectiveRule m).body = ""
    · rw [if_pos hempty, hempty]
      by_cases hlost : "" ∈ fieldNames m.input ∧ "" ∉ e.pathNames
      · simp [hlost]
      · rw [if_neg hlost]
        simpa using hlost
    · rw [if_neg hempty]
      by_cases hpath : (effectiveRule m).body ∈ e.pathNames <;>
        simp [hempty, hpath, body_mem_fieldNames h hw hempty]

theorem counted_planMethod : ∃ e, (fieldNames planMethod.input).Nodup ∧
    (effectiveRule planMethod).body ≠ wholeMessage ∧ Endpoint.ofMethod planMethod = .ok e ∧
      Counted planMethod e := by
  have hn : (fieldNames planMethod.input).Nodup := by decide +kernel
  have hw : (effectiveRule planMethod).body ≠ wholeMessage := by decide
  obtain ⟨e, he⟩ := exists_ok_of_isOk (x := Endpoint.ofMethod planMethod) (by decide +kernel)
  exact ⟨e, hn, hw, he, Endpoint.counted_of_ofMethod hn hw he⟩

/-- A field that is a variable of the path and the body has two parameters. -/
theorem not_forall_parameters_counted : ¬ ∀ (m : Method) (e : Endpoint),
    (fieldNames m.input).Nodup → (effectiveRule m).body ≠ wholeMessage →
      Endpoint.ofMethod m = .ok e →
        e.pathParameters.length + e.queryParameters.length + (if e.body.isSome then 1 else 0) =
          m.input.fields.length := by
  intro hall
  have htwo : (match Endpoint.ofMethod (oneFieldMethod
        ⟨"place", .message ⟨"Place", "p.Place", "p.dto"⟩, .single, false, ""⟩
        ⟨"", some ⟨.post, "/v1/{place}"⟩, "place", "", []⟩) with
      | .ok e => decide (e.pathParameters.length + e.queryParameters.length +
          (if e.body.isSome then 1 else 0) = 1)
      | .error _ => true) = false := by
    decide +kernel
  split at htwo
  · rename_i e he
    exact of_decide_eq_false htwo (hall _ e (by decide +kernel) (by decide) he)
  · exact absurd htwo (by simp)

end RestScaffold.Target
