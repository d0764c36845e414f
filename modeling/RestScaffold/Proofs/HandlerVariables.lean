import Mathlib.Data.List.Nodup
import RestScaffold.Proofs.Bindings
import RestScaffold.Proofs.CamelCase
import RestScaffold.Proofs.PathReading

/-! # The variables of a handler

A handler declares its arguments and, unless the body is the whole request, a variable for the
request that it puts together. All their names are made from names of the contract.

* `Endpoint.nodup_boundArguments`, `Endpoint.argumentName_of_binds`: the arguments for fields of the
  request have the member names of the fields;
* `Endpoint.argumentNames_of_fields`, `Endpoint.argumentNames_of_whole`: all arguments of a handler;
* `Endpoint.variablesDistinct_of_ofMethod`: when no variable is declared twice, for requests whose
  fields have different member names. -/

namespace RestScaffold.Target

open Contract (Message Method Field)
open Http (wholeMessage)
open Naming (memberName)
open PathTemplate (Variable)

variable {m : Method} {e : Endpoint}

/-! ### Member names of fields -/

/-- The fields of a message have different member names. -/
def MembersDistinct (m : Message) : Prop :=
  (m.fields.map fun f => memberName f.name).Nodup

instance (m : Message) : Decidable (MembersDistinct m) :=
  inferInstanceAs (Decidable (List.Nodup _))

/-- The names of the fields of a message. -/
def fieldNames (m : Message) : List String :=
  m.fields.map (·.name)

theorem MembersDistinct.nodup_map {m : Message} (h : MembersDistinct m) :
    ((fieldNames m).map memberName).Nodup := by
  rw [fieldNames, List.map_map]
  exact h

theorem MembersDistinct.nodup {m : Message} (h : MembersDistinct m) : (fieldNames m).Nodup :=
  h.nodup_map.of_map memberName

/-- Different fields keep different names when the names become member names. -/
theorem MembersDistinct.nodup_map_of_subset {m : Message} (h : MembersDistinct m)
    {names : List String} (hn : names.Nodup) (hsub : ∀ name ∈ names, name ∈ fieldNames m) :
    (names.map memberName).Nodup := by
  refine hn.map_on ?_
  intro a ha b hb hab
  exact List.inj_on_of_nodup_map h.nodup_map (hsub a ha) (hsub b hb) hab

/-! ### Arguments and their fields -/

/-- The names of a handler's arguments. -/
def Endpoint.argumentNames (e : Endpoint) : List String :=
  e.parameters.map Parameter.argumentName

/-- A body that is a field of the request is no variable of the path. -/
def Endpoint.BodyApart (e : Endpoint) : Prop :=
  e.wholeBody = false → ∀ body ∈ e.body, ∀ p ∈ e.pathParameters, p.name ≠ body.name

/-- The member names that parameters from the query have stay as they are in the arguments. -/
def Endpoint.QueryNamesKept (e : Endpoint) : Prop :=
  ∀ p ∈ e.queryParameters, p.argumentName = p.name

instance (e : Endpoint) : Decidable e.BodyApart :=
  inferInstanceAs (Decidable (e.wholeBody = false → ∀ body ∈ e.body, _))

instance (e : Endpoint) : Decidable e.QueryNamesKept :=
  inferInstanceAs (Decidable (∀ p ∈ e.queryParameters, _))

/-- A field that one of the parameters takes its value for. -/
def BoundField (m : Method) (ps : List Parameter) (f : Field) : Prop :=
  ∃ p ∈ ps, p.Binds m f

section

variable {vars : List Variable} {path : List Parameter} {body : Option Parameter} {rule : Http.Rule}
  {input : Message}

theorem map_fieldName_path (rule : Http.Rule) (h : pathParameters vars input = .ok path) :
    path.map (Parameter.fieldName rule) = vars.map (·.name) := by
  have hall := pathParameters_eq_ok_iff.mp h
  clear h
  induction hall with
  | nil => rfl
  | cons hp _ ih =>
      obtain ⟨f, -, rfl⟩ := hp
      rw [List.map_cons, List.map_cons, ih]
      rfl

theorem map_fieldName_query (hw : rule.body ≠ wholeMessage) :
    (queryParameters vars input rule).map (Parameter.fieldName rule) =
      (input.fields.filter (inQuery vars rule.body)).map (·.name) := by
  rw [queryParameters, if_neg hw, List.map_map]
  rfl

theorem apart_of_mem_query {field : String} {f : Field}
    (h : f ∈ input.fields.filter (inQuery vars field)) :
    f.name ∉ vars.map (·.name) ∧ f.name ≠ field := by
  simpa [inQuery] using (List.mem_filter.mp h).2

theorem isQuery_of_mem_path (rule : Http.Rule) (h : pathParameters vars input = .ok path)
    {p : Parameter} (hp : p ∈ path) : p.isQuery = false ∧ p.name = p.fieldName rule := by
  obtain ⟨v, -, f, -, rfl⟩ := exists_left_of_forall₂ (pathParameters_eq_ok_iff.mp h) p hp
  exact ⟨rfl, rfl⟩

theorem isQuery_of_mem_body (h : bodyParameter input rule = .ok body)
    {p : Parameter} (hp : p ∈ body) :
    p.isQuery = false ∧ p.fieldName rule = rule.body ∧
      (rule.body ≠ wholeMessage → p.name = rule.body) := by
  rcases bodyParameter_eq_ok_iff.mp h with ⟨-, rfl⟩ | ⟨hw, rfl⟩ | ⟨-, -, f, -, -, rfl⟩
  · exact absurd hp (by simp)
  · obtain rfl := Option.some.inj hp
    exact ⟨rfl, rfl, fun hne => absurd hw hne⟩
  · obtain rfl := Option.some.inj hp
    exact ⟨rfl, rfl, fun _ => rfl⟩

end

/-- The parameters for fields: those from the path and, unless the body is the whole request, those
from the query and from the body. -/
theorem Endpoint.boundParameters_ofParts (m : Method) (vars : List Variable)
    (path : List Parameter) (body : Option Parameter) (reply : Reply) :
    (ofParts m vars path body reply).boundParameters =
      if (effectiveRule m).body = wholeMessage then path
      else path ++ (Target.queryParameters vars m.input (effectiveRule m) ++ body.toList) := by
  by_cases hw : (effectiveRule m).body = wholeMessage
  · simp [boundParameters, ofParts, hw]
  · simp [boundParameters, parameters, ofParts, hw]

theorem Endpoint.nodup_fieldName (hm : MembersDistinct m.input) (h : Endpoint.ofMethod m = .ok e)
    (hb : e.BodyApart) :
    (e.boundParameters.map (Parameter.fieldName (effectiveRule m))).Nodup := by
  obtain ⟨-, vars, path, body, reply, hvars, hpath, hbody, -, rfl⟩ := ofMethod_eq_ok_iff.mp h
  have hvn := PathTemplate.nodup_variablesOf hvars
  rw [boundParameters_ofParts]
  by_cases hw : (effectiveRule m).body = wholeMessage
  · rwa [if_pos hw, map_fieldName_path _ hpath]
  · rw [if_neg hw, List.map_append, List.map_append, map_fieldName_path _ hpath,
      map_fieldName_query hw]
    have hbodyName : ∀ name ∈ body.toList.map (Parameter.fieldName (effectiveRule m)),
        name = (effectiveRule m).body := by
      intro name hname
      obtain ⟨p, hp, rfl⟩ := List.mem_map.mp hname
      exact (isQuery_of_mem_body hbody (Option.mem_toList.mp hp)).2.1
    have hquery : (((m.input.fields.filter (inQuery vars (effectiveRule m).body)).map (·.name)) ++
        body.toList.map (Parameter.fieldName (effectiveRule m))).Nodup := by
      refine (hm.nodup.sublist (List.filter_sublist.map _)).append ?_ ?_
      · cases body <;> simp
      · intro name hname hmem
        obtain ⟨f, hf, rfl⟩ := List.mem_map.mp hname
        exact (apart_of_mem_query hf).2 (hbodyName _ hmem)
    refine hvn.append hquery ?_
    intro name hname hmem
    rcases List.mem_append.mp hmem with hmem | hmem
    · obtain ⟨f, hf, rfl⟩ := List.mem_map.mp hmem
      exact (apart_of_mem_query hf).1 hname
    · -- Only here does it matter that the body is no variable of the path.
      obtain ⟨b, hbm, -⟩ := List.mem_map.mp hmem
      have hbm := Option.mem_toList.mp hbm
      rw [← map_fieldName_path (effectiveRule m) hpath] at hname
      obtain ⟨p, hp, rfl⟩ := List.mem_map.mp hname
      refine hb (decide_eq_false hw) b hbm p hp ?_
      rw [(isQuery_of_mem_body hbody hbm).2.2 hw, (isQuery_of_mem_path _ hpath hp).2]
      exact hbodyName _ hmem

theorem Endpoint.mem_queryParameters {p : Parameter} (h : Endpoint.ofMethod m = .ok e)
    (hp : p ∈ e.boundParameters) (hq : p.isQuery = true) : p ∈ e.queryParameters := by
  obtain ⟨-, vars, path, body, reply, -, hpath, hbody, -, rfl⟩ := ofMethod_eq_ok_iff.mp h
  have hnotPath : p ∉ path := by
    intro hmem
    rw [(isQuery_of_mem_path (effectiveRule m) hpath hmem).1] at hq
    exact Bool.false_ne_true hq
  rw [boundParameters_ofParts] at hp
  split at hp
  · exact absurd hp hnotPath
  · rcases List.mem_append.mp hp with hp | hp
    · exact absurd hp hnotPath
    · rcases List.mem_append.mp hp with hp | hp
      · exact hp
      · rw [(isQuery_of_mem_body hbody (Option.mem_toList.mp hp)).1] at hq
        exact absurd hq Bool.false_ne_true

theorem Endpoint.argumentName_of_binds (h : Endpoint.ofMethod m = .ok e) (hq : e.QueryNamesKept)
    {p : Parameter} (hp : p ∈ e.boundParameters) {f : Field} (hf : p.Binds m f) :
    p.argumentName = memberName f.name := by
  obtain ⟨g, hg, hname⟩ := exists_binds h hp
  have hfg : g.name = f.name := hg.2.trans hf.2.symm
  rw [hfg] at hname
  cases hquery : p.isQuery with
  | false => rw [Parameter.argumentName, hname, hquery, if_neg Bool.false_ne_true]
  | true => rw [hq p (mem_queryParameters h hp hquery), hname, hquery, if_pos rfl]

theorem Endpoint.nodup_boundArguments (hm : MembersDistinct m.input)
    (h : Endpoint.ofMethod m = .ok e) (hb : e.BodyApart) (hq : e.QueryNamesKept) :
    (e.boundParameters.map Parameter.argumentName).Nodup := by
  have hnames : e.boundParameters.map Parameter.argumentName =
      (e.boundParameters.map (Parameter.fieldName (effectiveRule m))).map memberName := by
    rw [List.map_map]
    apply List.map_congr_left
    intro p hp
    obtain ⟨f, hf, -⟩ := exists_binds h hp
    rw [argumentName_of_binds h hq hp hf, hf.2, Function.comp_apply]
  rw [hnames]
  refine hm.nodup_map_of_subset (nodup_fieldName hm h hb) ?_
  intro name hname
  obtain ⟨p, hp, rfl⟩ := List.mem_map.mp hname
  obtain ⟨f, hf, -⟩ := exists_binds h hp
  rw [← hf.2]
  exact List.mem_map_of_mem hf.1

theorem Endpoint.argumentNames_of_fields (hw : e.wholeBody = false) :
    e.argumentNames = e.boundParameters.map Parameter.argumentName := by
  rw [argumentNames, boundParameters, hw, if_neg Bool.false_ne_true]

/-- Where the body is the whole request, its argument stands behind those from the path. -/
theorem Endpoint.argumentNames_of_whole (h : Endpoint.ofMethod m = .ok e)
    (hw : e.wholeBody = true) : e.argumentNames =
      e.boundParameters.map Parameter.argumentName ++
        [memberName (Text.lowerFirst m.input.name)] := by
  obtain ⟨-, vars, path, body, reply, -, -, hbody, -, rfl⟩ := ofMethod_eq_ok_iff.mp h
  have hwhole : (effectiveRule m).body = wholeMessage := of_decide_eq_true hw
  obtain rfl := bodyParameter_of_whole hbody hwhole
  simp [argumentNames, parameters, boundParameters, ofParts, queryParameters_of_whole _ _ hwhole,
    hwhole, Parameter.argumentName]

/-! ### Distinct variables -/

/-- No variable is declared twice by a handler, up to the names that are made of the name of the
request message. -/
structure VariablesDistinct (m : Method) (e : Endpoint) : Prop where
  /-- The arguments have different names, unless the body is the whole request and its argument
  has the name of one from the path. -/
  arguments : e.argumentNames.Nodup ↔ (e.wholeBody = true → ∀ f, BoundField m e.pathParameters f →
    memberName f.name ≠ memberName (Text.lowerFirst m.input.name))
  /-- The variable for the request has the name of no argument, unless a field that there is an
  argument for is named like the request message. -/
  request : e.wholeBody = false → (e.requestName ∉ e.argumentNames ↔
    ∀ f, BoundField m e.parameters f → memberName f.name ≠ Text.lowerFirst m.input.name)

theorem Endpoint.notMem_boundArguments_iff (h : Endpoint.ofMethod m = .ok e)
    (hq : e.QueryNamesKept) (name : String) :
    name ∉ e.boundParameters.map Parameter.argumentName ↔
      ∀ f, BoundField m e.boundParameters f → memberName f.name ≠ name := by
  constructor
  · rintro hname f ⟨p, hp, hf⟩ rfl
    rw [← argumentName_of_binds h hq hp hf] at hname
    exact hname (List.mem_map_of_mem hp)
  · intro hall hname
    obtain ⟨p, hp, rfl⟩ := List.mem_map.mp hname
    obtain ⟨f, hf, -⟩ := exists_binds h hp
    exact hall f ⟨p, hp, hf⟩ (argumentName_of_binds h hq hp hf).symm

/-- **Variables of a handler.** For a request whose fields have different member names, where the
body is no variable of the path and the names from the query stay as they are, a handler declares
a variable twice only for the name of the request message. -/
theorem Endpoint.variablesDistinct_of_ofMethod (hm : MembersDistinct m.input)
    (h : Endpoint.ofMethod m = .ok e) (hb : e.BodyApart) (hq : e.QueryNamesKept) :
    VariablesDistinct m e := by
  have hbound := nodup_boundArguments hm h hb hq
  have hrequest : e.requestName = Text.lowerFirst m.input.name := by
    obtain ⟨-, vars, path, body, reply, -, -, -, -, rfl⟩ := ofMethod_eq_ok_iff.mp h
    rfl
  constructor
  · cases hw : e.wholeBody with
    | false => simpa [argumentNames_of_fields hw] using hbound
    | true =>
        have hpath : e.boundParameters = e.pathParameters := by
          rw [boundParameters, hw, if_pos rfl]
        rw [argumentNames_of_whole h hw, List.nodup_append_comm, List.singleton_append,
          List.nodup_cons, notMem_boundArguments_iff h hq, hpath]
        rw [hpath] at hbound
        simp [hbound]
  · intro hw
    have hall : e.boundParameters = e.parameters := by
      rw [boundParameters, hw, if_neg Bool.false_ne_true]
    rw [argumentNames_of_fields hw, notMem_boundArguments_iff h hq, hall, hrequest]

/-- A request with a field from the path, one from the query and one in the body. -/
def addBookMethod : Method where
  name := "AddBook"
  fullName := "lib.Shelves.AddBook"
  input := {
    name := "AddBookRequest"
    fullName := "lib.AddBookRequest"
    file := "lib.proto"
    package := "lib.dto"
    fields :=
      [⟨"shelf_id", .scalar .string, .single, false, ""⟩,
       ⟨"new_book", .message ⟨"Book", "lib.Book", "lib.dto"⟩, .single, false, ""⟩,
       ⟨"dry_run", .scalar .bool, .single, false, ""⟩] }
  output := { name := "Book", fullName := "lib.Book", file := "lib.proto", package := "lib.dto" }
  rule := some { pattern := some ⟨.post, "/v1/{shelf_id=shelves/*}/books"⟩, body := "new_book" }

theorem variablesDistinct_addBookMethod : ∃ e, MembersDistinct addBookMethod.input ∧
    Endpoint.ofMethod addBookMethod = .ok e ∧ e.BodyApart ∧ e.QueryNamesKept ∧
    VariablesDistinct addBookMethod e := by
  have hm : MembersDistinct addBookMethod.input := by decide +kernel
  have hok : (match Endpoint.ofMethod addBookMethod with
      | .ok e => decide (e.BodyApart ∧ e.QueryNamesKept)
      | .error _ => false) = true := by
    decide +kernel
  cases h : Endpoint.ofMethod addBookMethod with
  | error fault => simp [h] at hok
  | ok e =>
      simp only [h, decide_eq_true_eq] at hok
      exact ⟨e, hm, rfl, hok.1, hok.2, Endpoint.variablesDistinct_of_ofMethod hm h hok.1 hok.2⟩

/-- A method whose request message has a field that is named like it. -/
def likedMethod (rule : Http.Rule) : Method where
  name := "PutUser"
  fullName := "p.Users.PutUser"
  input := {
    name := "User"
    fullName := "p.User"
    file := "p.proto"
    package := "p.dto"
    fields := [⟨"user", .scalar .string, .single, false, ""⟩] }
  output := { name := "User", fullName := "p.User", file := "p.proto", package := "p.dto" }
  rule := some rule

/-- Two arguments have one name where the body is the whole request and a field from the path is
named like the request message. The variable for the request has the name of an argument where a
field from the query is named like it. -/
theorem not_forall_variables_distinct :
    (¬ ∀ (m : Method) (e : Endpoint), MembersDistinct m.input → Endpoint.ofMethod m = .ok e →
      e.argumentNames.Nodup) ∧
    ¬ ∀ (m : Method) (e : Endpoint), MembersDistinct m.input → Endpoint.ofMethod m = .ok e →
      e.wholeBody = false → e.requestName ∉ e.argumentNames := by
  constructor
  · intro hall
    have hclash : (match Endpoint.ofMethod
          (likedMethod ⟨"", some ⟨.put, "/v1/{user}"⟩, "*", "", []⟩) with
        | .ok e => decide e.argumentNames.Nodup
        | .error _ => true) = false := by
      decide +kernel
    split at hclash
    · rename_i e he
      exact of_decide_eq_false hclash (hall _ e (by decide +kernel) he)
    · exact absurd hclash (by simp)
  · intro hall
    have hclash : (match Endpoint.ofMethod
          (likedMethod ⟨"", some ⟨.put, "/v1/users"⟩, "", "", []⟩) with
        | .ok e => decide (e.wholeBody = false → e.requestName ∉ e.argumentNames)
        | .error _ => true) = false := by
      decide +kernel
    split at hclash
    · rename_i e he
      exact of_decide_eq_false hclash (hall _ e (by decide +kernel) he)
    · exact absurd hclash (by simp)

end RestScaffold.Target
