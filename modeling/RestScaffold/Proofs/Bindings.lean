import RestScaffold.Proofs.Sequencing
import RestScaffold.Target.Controller

/-! # Bindings

What is known of an endpoint or a controller that was built without a fault.

* `pathParameters_eq_ok_iff`, `bodyParameter_eq_ok_iff`, `replyOf_eq_ok_iff`: the three parts that
  may be refused;
* `bodyParameter_of_whole`, `bodyParameter_of_field`, `queryParameters_of_whole`: what a rule's body
  makes of body and query;
* `Endpoint.ofMethod_eq_ok_iff`: an endpoint and the parts that it is made of;
* `Endpoint.parameter_cases`: what a parameter of an endpoint can be;
* `Controller.ofService_eq_ok_iff`, `ServiceInterface.ofService_eq_ok_iff`: the two classes of a
  service;
* `Parameter.Binds`: the request field that a parameter takes its value for. -/

namespace RestScaffold.Target

open Contract (File Service Message Field)
open Http (Rule Verb wholeMessage)
open PathTemplate (Variable)

/-! ### Fields by name -/

theorem field?_eq_some {m : Message} {name : String} {f : Field} (h : m.field? name = some f) :
    f ∈ m.fields ∧ f.name = name := by
  unfold Message.field? at h
  exact ⟨List.mem_of_find?_eq_some h, by simpa using List.find?_some h⟩

/-! ### The parts of an endpoint -/

theorem pathParameters_eq_ok_iff {vars : List Variable} {m : Message} {ps : List Parameter} :
    pathParameters vars m = .ok ps ↔
      List.Forall₂ (fun v p => ∃ f, m.field? v.name = some f ∧
        p = ⟨.path v.name, .ofField f, v.name⟩) vars ps := by
  unfold pathParameters
  rw [mapM_eq_ok_iff]
  refine iff_of_eq (congrArg (List.Forall₂ · vars ps) ?_)
  funext v p
  cases h : m.field? v.name with
  | none => simp
  | some f => simp [eq_comm]

theorem bodyParameter_eq_ok_iff {m : Message} {rule : Rule} {body : Option Parameter} :
    bodyParameter m rule = .ok body ↔
      rule.body = "" ∧ body = none ∨
      rule.body = wholeMessage ∧ body = some ⟨.body, .declared m.ref, Text.lowerFirst m.name⟩ ∨
      rule.body ≠ "" ∧ rule.body ≠ wholeMessage ∧ ∃ f, m.field? rule.body = some f ∧
        f.kind.isMessage ∧ body = some ⟨.body, .ofField f, rule.body⟩ := by
  unfold bodyParameter
  by_cases he : rule.body = ""
  · simp [he, wholeMessage, @eq_comm _ body]
  · by_cases hw : rule.body = wholeMessage
    · simp [hw, wholeMessage, @eq_comm _ body]
    · cases hf : m.field? rule.body with
      | none => simp [he, hw]
      | some f => cases hk : f.kind.isMessage <;> simp [he, hw, hk, @eq_comm _ body]

theorem bodyParameter_of_whole {m : Message} {rule : Rule} {body : Option Parameter}
    (h : bodyParameter m rule = .ok body) (hw : rule.body = wholeMessage) :
    body = some ⟨.body, .declared m.ref, Text.lowerFirst m.name⟩ := by
  rcases bodyParameter_eq_ok_iff.mp h with ⟨he, -⟩ | ⟨-, rfl⟩ | ⟨-, hne, -⟩
  · exact absurd (he.symm.trans hw) (by decide)
  · rfl
  · exact absurd hw hne

theorem bodyParameter_of_field {m : Message} {rule : Rule} {body : Option Parameter}
    (h : bodyParameter m rule = .ok body) (hw : rule.body ≠ wholeMessage) (hne : rule.body ≠ "") :
    ∃ f, m.field? rule.body = some f ∧ body = some ⟨.body, .ofField f, rule.body⟩ := by
  rcases bodyParameter_eq_ok_iff.mp h with ⟨he, -⟩ | ⟨hwhole, -⟩ | ⟨-, -, f, hf, -, hbody⟩
  · exact absurd he hne
  · exact absurd hwhole hw
  · exact ⟨f, hf, hbody⟩

theorem queryParameters_of_whole (vars : List Variable) (m : Message) {rule : Rule}
    (hw : rule.body = wholeMessage) : queryParameters vars m rule = [] := by
  rw [queryParameters, if_pos hw]

theorem replyOf_eq_ok_iff {m : Message} {rule : Rule} {reply : Reply} :
    replyOf m rule = .ok reply ↔
      (rule.responseBody = "" ∨ rule.responseBody = wholeMessage) ∧
        reply = ⟨.declared m.ref, Text.lowerFirst m.name, false⟩ ∨
      ¬ (rule.responseBody = "" ∨ rule.responseBody = wholeMessage) ∧
        ∃ f, m.field? rule.responseBody = some f ∧
          reply = ⟨.ofField f, rule.responseBody, true⟩ := by
  unfold replyOf
  by_cases hw : rule.responseBody = "" ∨ rule.responseBody = wholeMessage
  · simp [hw, @eq_comm _ reply]
  · cases hf : m.field? rule.responseBody <;> simp [hw, @eq_comm _ reply]

theorem checkVerb_eq_ok_iff {verb : Verb} (method : String) :
    checkVerb verb method = .ok () ↔ verb.isSupported := by
  unfold checkVerb
  split <;> simp_all

/-! ### Endpoints and controllers -/

/-- The endpoint that is made of the parts of a method's binding. -/
def Endpoint.ofParts (m : Contract.Method) (vars : List Variable) (path : List Parameter)
    (body : Option Parameter) (reply : Reply) : Endpoint where
  operation := .ofMethod m
  verb := (effectiveRule m).verb
  path := (effectiveRule m).path
  requestName := Text.lowerFirst m.input.name
  pathParameters := path
  queryParameters := Target.queryParameters vars m.input (effectiveRule m)
  body := body
  reply := reply
  wholeBody := (effectiveRule m).body = wholeMessage

theorem Endpoint.ofMethod_eq_ok_iff {m : Contract.Method} {e : Endpoint} :
    Endpoint.ofMethod m = .ok e ↔
      (effectiveRule m).verb.isSupported ∧ ∃ vars path body reply,
        PathTemplate.variablesOf (effectiveRule m).path = .ok vars ∧
        Target.pathParameters vars m.input = .ok path ∧
        bodyParameter m.input (effectiveRule m) = .ok body ∧
        replyOf m.output (effectiveRule m) = .ok reply ∧
        e = .ofParts m vars path body reply := by
  unfold Endpoint.ofMethod
  simp only [bind_eq_ok_iff, pure_eq_ok_iff, ← checkVerb_eq_ok_iff m.fullName]
  constructor
  · rintro ⟨_, hv, vars, hvars, path, hpath, body, hbody, reply, hreply, rfl⟩
    exact ⟨hv, vars, path, body, reply, hvars, hpath, hbody, hreply, rfl⟩
  · rintro ⟨hv, vars, path, body, reply, hvars, hpath, hbody, hreply, rfl⟩
    exact ⟨(), hv, vars, hvars, path, hpath, body, hbody, reply, hreply, rfl⟩

theorem Endpoint.wholeBody_iff {m : Contract.Method} {e : Endpoint}
    (h : Endpoint.ofMethod m = .ok e) :
    e.wholeBody = true ↔ (effectiveRule m).body = wholeMessage := by
  obtain ⟨-, vars, path, body, reply, -, -, -, -, rfl⟩ := ofMethod_eq_ok_iff.mp h
  exact decide_eq_true_iff

theorem Endpoint.exists_of_mem_pathParameters {m : Contract.Method} {e : Endpoint}
    (h : Endpoint.ofMethod m = .ok e) {p : Parameter} (hp : p ∈ e.pathParameters) :
    ∃ f ∈ m.input.fields, p = ⟨.path f.name, .ofField f, f.name⟩ := by
  obtain ⟨-, vars, path, body, reply, -, hpath, -, -, rfl⟩ := ofMethod_eq_ok_iff.mp h
  obtain ⟨v, -, f, hf, rfl⟩ := exists_left_of_forall₂ (pathParameters_eq_ok_iff.mp hpath) p hp
  obtain ⟨hmem, hname⟩ := field?_eq_some hf
  exact ⟨f, hmem, by rw [hname]⟩

/-- A parameter of an endpoint takes a variable of the path, a field from the query, or a body that
is the whole request or one of its fields. -/
theorem Endpoint.parameter_cases {m : Contract.Method} {e : Endpoint}
    (h : Endpoint.ofMethod m = .ok e) {p : Parameter} (hp : p ∈ e.parameters) :
    p ∈ e.pathParameters ∨
    ((effectiveRule m).body ≠ wholeMessage ∧ ∃ f ∈ m.input.fields, p = queryParameter f) ∨
    ((effectiveRule m).body = wholeMessage ∧
      p = ⟨.body, .declared m.input.ref, Text.lowerFirst m.input.name⟩) ∨
    ((effectiveRule m).body ≠ wholeMessage ∧ ∃ f ∈ m.input.fields,
      f.name = (effectiveRule m).body ∧ p = ⟨.body, .ofField f, f.name⟩) := by
  obtain ⟨-, vars, path, body, reply, -, -, hbody, -, rfl⟩ := ofMethod_eq_ok_iff.mp h
  rcases List.mem_append.mp hp with hp | hp
  · rcases List.mem_append.mp hp with hp | hp
    · exact Or.inl hp
    · have hquery : p ∈ Target.queryParameters vars m.input (effectiveRule m) := hp
      by_cases hw : (effectiveRule m).body = wholeMessage
      · rw [queryParameters_of_whole _ _ hw] at hquery
        exact absurd hquery List.not_mem_nil
      · rw [Target.queryParameters, if_neg hw] at hquery
        obtain ⟨f, hf, rfl⟩ := List.mem_map.mp hquery
        exact Or.inr (Or.inl ⟨hw, f, (List.mem_filter.mp hf).1, rfl⟩)
  · obtain rfl : body = some p := Option.mem_toList.mp hp
    rcases bodyParameter_eq_ok_iff.mp hbody with ⟨-, hnone⟩ | ⟨hw, hp⟩ | ⟨-, hw, f, hf, -, hp⟩
    · exact absurd hnone (Option.some_ne_none p)
    · exact Or.inr (Or.inr (Or.inl ⟨hw, Option.some.inj hp⟩))
    · obtain ⟨hmem, hname⟩ := field?_eq_some hf
      refine Or.inr (Or.inr (Or.inr ⟨hw, f, hmem, hname, ?_⟩))
      rw [hname]
      exact Option.some.inj hp

theorem Controller.ofService_eq_ok_iff {options : Options} {file : File} {s : Service}
    {c : Controller} :
    Controller.ofService options file s = .ok c ↔ ∃ endpoints,
      List.Forall₂ (fun m e => Endpoint.ofMethod m = .ok e) s.methods endpoints ∧
        c = ⟨controllerPackage options file, controllerName s, s.comment, Target.serviceName s,
          endpoints, controllerImports options file s⟩ := by
  unfold Controller.ofService
  simp only [bind_eq_ok_iff, mapM_eq_ok_iff, pure_eq_ok_iff, @eq_comm _ c]

theorem ServiceInterface.ofService_eq_ok_iff {options : Options} {file : File} {s : Service}
    {i : ServiceInterface} :
    ServiceInterface.ofService options file s = .ok i ↔ ∃ operations,
      operationsOf s = .ok operations ∧
        i = ⟨servicePackage options file, Target.serviceName s, s.comment, operations,
          (s.methods.flatMap fun m => [m.input.ref.importPath, m.output.ref.importPath]).eraseDups⟩ := by
  unfold ServiceInterface.ofService
  simp only [bind_eq_ok_iff, pure_eq_ok_iff, @eq_comm _ i]

/-! ### Bound fields -/

/-- The name of the request field that a parameter takes its value for. -/
def Parameter.fieldName (rule : Rule) (p : Parameter) : String :=
  match p.origin with
  | .path name => name
  | .query name _ => name
  | .body => rule.body

/-- Does a parameter of a method's handler take its value for a field of the request? -/
def Parameter.Binds (m : Contract.Method) (p : Parameter) (f : Field) : Prop :=
  f ∈ m.input.fields ∧ f.name = p.fieldName (effectiveRule m)

/-- Is the parameter taken from the query? -/
def Parameter.isQuery (p : Parameter) : Bool :=
  match p.origin with
  | .query _ _ => true
  | _ => false

/-- Every parameter that a handler hands to the request is named after a field of the request. One
from the path or the body has the field's own name, one from the query its member name. -/
theorem Endpoint.exists_binds {m : Contract.Method} {e : Endpoint}
    (h : Endpoint.ofMethod m = .ok e) {p : Parameter} (hp : p ∈ e.boundParameters) :
    ∃ f, p.Binds m f ∧ p.name = if p.isQuery then Naming.memberName f.name else f.name := by
  unfold boundParameters at hp
  split at hp
  · obtain ⟨f, hf, rfl⟩ := exists_of_mem_pathParameters h hp
    exact ⟨f, ⟨hf, rfl⟩, rfl⟩
  · rename_i hnot
    rcases parameter_cases h hp with hpath | ⟨-, f, hf, rfl⟩ | ⟨hw, -⟩ | ⟨-, f, hf, hname, rfl⟩
    · obtain ⟨f, hf, rfl⟩ := exists_of_mem_pathParameters h hpath
      exact ⟨f, ⟨hf, rfl⟩, rfl⟩
    · exact ⟨f, ⟨hf, rfl⟩, rfl⟩
    · exact absurd ((wholeBody_iff h).mpr hw) hnot
    · exact ⟨f, ⟨hf, hname⟩, rfl⟩

end RestScaffold.Target
