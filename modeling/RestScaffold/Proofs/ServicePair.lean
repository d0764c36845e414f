import RestScaffold.Proofs.Accessors

/-! # Interface and controller

A service has two classes, which are made apart from each other: an interface with a method for each
method of the service, and a controller that calls them.

* `firstClash_eq_none_iff`, `firstRepeat_of_firstClash`: when an interface is refused;
* `Declares`: an operation of the interface against the method that it is made of;
* `Handles`: a handler, by the parts that it is written with, against the operation that it stands
  for;
* `PairAgrees`, `pairAgrees_of_ofService`: the sources of the two classes fit together. -/

namespace RestScaffold.Target

open Contract (File Service Method Field)
open Http (wholeMessage)
open Text (joinLines lowerFirst upperFirst)

/-! ### Operations of one name -/

section

variable {earlier os : List Operation}

/-- An operation whose name none of the earlier ones has can join them. -/
theorem nodup_map_name_append (hn : (earlier.map (·.name)).Nodup) {o : Operation}
    (h : earlier.find? (·.name = o.name) = none) : ((earlier ++ [o]).map (·.name)).Nodup := by
  have hfresh : o.name ∉ earlier.map (·.name) := by simpa using h
  rw [List.map_append]
  exact hn.append (List.nodup_singleton _) (List.disjoint_singleton.mpr hfresh)

theorem nodup_of_firstClash_eq_none (hn : (earlier.map (·.name)).Nodup)
    (h : firstClash earlier os = none) : ((earlier ++ os).map (·.name)).Nodup := by
  induction os generalizing earlier with
  | nil => rwa [List.append_nil]
  | cons o os ih =>
      unfold firstClash at h
      cases hfind : earlier.find? (·.name = o.name) with
      | some found => exact absurd h (by simp [hfind])
      | none =>
          rw [hfind] at h
          have hall := ih (nodup_map_name_append hn hfind) h
          rwa [List.append_assoc] at hall

theorem firstRepeat_of_firstClash (hn : (earlier.map (·.name)).Nodup) {first second : Operation}
    (h : firstClash earlier os = some (first, second)) :
    FirstRepeat Operation.name (earlier ++ os) first second := by
  induction os generalizing earlier with
  | nil => exact absurd h (by simp [firstClash])
  | cons o os ih =>
      unfold firstClash at h
      cases hfind : earlier.find? (·.name = o.name) with
      | some found =>
          rw [hfind] at h
          obtain ⟨rfl, rfl⟩ := Prod.mk.inj (Option.some.inj h)
          have hname : found.name = o.name := by simpa using List.find?_some hfind
          exact ⟨earlier, os, rfl, hn, List.mem_of_find?_eq_some hfind, hname⟩
      | none =>
          rw [hfind] at h
          have hrepeat := ih (nodup_map_name_append hn hfind) h
          rwa [List.append_assoc] at hrepeat

theorem firstClash_eq_none_iff (hn : (earlier.map (·.name)).Nodup) :
    firstClash earlier os = none ↔ ((earlier ++ os).map (·.name)).Nodup := by
  constructor
  · exact nodup_of_firstClash_eq_none hn
  · intro hall
    cases h : firstClash earlier os with
    | none => rfl
    | some p => exact absurd hall (firstRepeat_of_firstClash hn h).not_nodup

end

/-- The name of the method of the interface and of the handler. -/
def methodName (m : Method) : String :=
  Text.lowerFirst (Naming.typeName m.name)

theorem map_name_ofMethod (ms : List Method) :
    (ms.map Operation.ofMethod).map (·.name) = ms.map methodName := by
  rw [List.map_map]
  rfl

theorem operationsOf_eq_ok_iff {s : Service} {operations : List Operation} :
    operationsOf s = .ok operations ↔
      (s.methods.map methodName).Nodup ∧ operations = s.methods.map Operation.ofMethod := by
  have hnone : firstClash [] (s.methods.map Operation.ofMethod) = none ↔
      (s.methods.map methodName).Nodup := by
    have hnil : (([] : List Operation).map (·.name)).Nodup := List.nodup_nil
    rw [firstClash_eq_none_iff hnil, List.nil_append, map_name_ofMethod]
  unfold operationsOf
  rw [← hnone]
  cases h : firstClash [] (s.methods.map Operation.ofMethod) with
  | none => simp [h, @eq_comm _ operations]
  | some p => simp [h]

/-- Two methods of one name are reported: the first whose name is taken, and the one that has it. -/
theorem exists_firstRepeat_of_operationsOf {s : Service} {fault : Fault}
    (h : operationsOf s = .error fault) : ∃ first second,
      FirstRepeat methodName s.methods first second ∧
        fault = .methodClash s.fullName first.fullName second.fullName (methodName second) := by
  unfold operationsOf at h
  cases hclash : firstClash [] (s.methods.map Operation.ofMethod) with
  | none => exact absurd h (by simp [hclash])
  | some p =>
      obtain ⟨first, second⟩ := p
      simp only [hclash, Except.error.injEq] at h
      have hnil : (([] : List Operation).map (·.name)).Nodup := List.nodup_nil
      obtain ⟨m, m', hrepeat, rfl, rfl⟩ := (firstRepeat_of_firstClash hnil hclash).exists_of_map
      exact ⟨m, m', hrepeat, h.symm⟩

/-- An operation of an interface is made of a method of the service. -/
structure Declares (m : Method) (o : Operation) : Prop where
  name : o.name = methodName m
  request : o.request = m.input.ref
  response : o.response = m.output.ref
  comment : o.comment = m.comment

theorem declares_ofMethod (m : Method) : Declares m (.ofMethod m) :=
  ⟨rfl, rfl, rfl, rfl⟩

/-! ### Handlers -/

/-- The rule of a method asks for a field of the response. -/
def AsksForField (m : Method) : Prop :=
  (effectiveRule m).responseBody ≠ "" ∧ (effectiveRule m).responseBody ≠ wholeMessage

/-- The handler of a method stands for an operation of the interface, which it calls on the
service. -/
structure Handles (m : Method) (o : Operation) (h : Handler) : Prop where
  name : h.name = o.name
  calls : h.operation = o.name
  /-- The argument of the call is declared in the handler, with the type that the operation takes. -/
  passes : ⟨.declared o.request, h.argument⟩ ∈ h.locals
  /-- It has no other type, if no two variables are of one name. -/
  only : (h.locals.map (·.name)).Nodup →
    ∀ v ∈ h.locals, v.name = h.argument → v.type = .declared o.request
  /-- The handler returns what the operation gives. -/
  whole : ¬ AsksForField m → h.type = .declared o.response ∧ h.getter = none
  /-- It returns one field of it, if the rule asks for one. -/
  field : AsksForField m → ∃ f ∈ m.output.fields, f.name = (effectiveRule m).responseBody ∧
    h.type = .ofField f ∧ h.getter = some ("get" ++ upperFirst (Naming.memberName f.name))

section

variable {m : Method} {e : Endpoint}

theorem Endpoint.operation_of_ofMethod (h : Endpoint.ofMethod m = .ok e) :
    e.operation = .ofMethod m := by
  obtain ⟨-, vars, path, body, reply, -, -, -, -, rfl⟩ := ofMethod_eq_ok_iff.mp h
  rfl

/-- The variable that is handed to the service is declared, with the type of the request. -/
theorem Endpoint.argument_mem_locals (h : Endpoint.ofMethod m = .ok e) :
    ⟨.declared m.input.ref, e.handler.argument⟩ ∈ e.handler.locals := by
  obtain ⟨-, vars, path, body, reply, -, -, hbody, -, rfl⟩ := ofMethod_eq_ok_iff.mp h
  -- Either the argument for the body is the request, or the handler makes a new one.
  by_cases hw : (effectiveRule m).body = wholeMessage
  · obtain rfl := bodyParameter_of_whole hbody hw
    simp [Handler.locals, handler, requestVariable, parameters, ofParts, hw,
      Parameter.argumentName]
  · simp [Handler.locals, handler, requestVariable, ofParts, hw, Operation.ofMethod]

theorem Handler.type_of_mem_locals {h : Handler} (hn : (h.locals.map (·.name)).Nodup)
    {v w : LocalVariable} (hv : v ∈ h.locals) (hw : w ∈ h.locals) (hname : v.name = w.name) :
    v.type = w.type :=
  congrArg LocalVariable.type (List.inj_on_of_nodup_map hn hv hw hname)

theorem Endpoint.whole_of_ofMethod (h : Endpoint.ofMethod m = .ok e) (hf : ¬ AsksForField m) :
    e.reply.type = .declared m.output.ref ∧ e.replyGetter = none := by
  obtain ⟨-, vars, path, body, reply, -, -, -, hreply, rfl⟩ := ofMethod_eq_ok_iff.mp h
  rcases replyOf_eq_ok_iff.mp hreply with ⟨-, rfl⟩ | ⟨hnot, -⟩
  · exact ⟨rfl, rfl⟩
  · exact absurd (not_or.mp hnot) hf

theorem Endpoint.field_of_ofMethod (h : Endpoint.ofMethod m = .ok e) (hf : AsksForField m) :
    ∃ f ∈ m.output.fields, f.name = (effectiveRule m).responseBody ∧ e.reply.type = .ofField f ∧
      e.replyGetter = some ("get" ++ upperFirst (Naming.memberName f.name)) := by
  have hgetter := replyGetter_of_field h hf.1 hf.2
  obtain ⟨-, vars, path, body, reply, -, -, -, hreply, rfl⟩ := ofMethod_eq_ok_iff.mp h
  rcases replyOf_eq_ok_iff.mp hreply with ⟨hwhole, -⟩ | ⟨-, f, hfield, rfl⟩
  · exact absurd hwhole (not_or.mpr hf)
  · obtain ⟨hmem, hname⟩ := field?_eq_some hfield
    refine ⟨f, hmem, hname, rfl, ?_⟩
    rw [hgetter, hname]

theorem Endpoint.handles_of_ofMethod (h : Endpoint.ofMethod m = .ok e) :
    Handles m (.ofMethod m) e.handler where
  name := congrArg Operation.name (operation_of_ofMethod h)
  calls := congrArg Operation.name (operation_of_ofMethod h)
  passes := argument_mem_locals h
  only := fun hn _ hv hname => Handler.type_of_mem_locals hn hv (argument_mem_locals h) hname
  whole := fun hf => whole_of_ofMethod h hf
  field := fun hf => field_of_ofMethod h hf

end

/-! ### The pair -/

/-- The interface and the controller of a service, side by side. -/
structure PairAgrees (s : Service) (i : ServiceInterface) (c : Controller) : Prop where
  /-- The source of the interface has the operations for its methods. -/
  interface : (Artifact.serviceInterface i).text = Text.trim (joinLines
    (interfaceLines (header i.package i.imports) (classComment i.comment) i.name
      (rowOf (i.operations.map Operation.block))))
  /-- The source of the controller holds the service in a field of the interface's type, which its
  constructor sets, and has a handler for each endpoint, which calls the service in that field. -/
  controller : (Artifact.controller c).text = Text.trim (joinLines
    (controllerLines (header c.package c.imports) (classComment c.comment) c.name i.name
      (lowerFirst i.name) (rowOf (c.endpoints.map fun e => e.handler.block (lowerFirst i.name)))))
  operations : List.Forall₂ Declares s.methods i.operations
  endpoints : c.endpoints.length = i.operations.length
  handlers : ∀ (k : Nat) (m : Method) (o : Operation) (e : Endpoint), s.methods[k]? = some m →
    i.operations[k]? = some o → c.endpoints[k]? = some e → Handles m o e.handler
  names : (c.endpoints.map (·.handler.name)).Nodup

/-- What becomes of a service: its interface is refused when two methods get one name, and it agrees
with the controller. -/
structure ServicePair (options : Options) (file : File) (s : Service) : Prop where
  fails_iff : (∃ fault, ServiceInterface.ofService options file s = .error fault) ↔
    ¬ (s.methods.map methodName).Nodup
  /-- The fault names the first method whose name is taken, and the method that took it. -/
  fault : ∀ fault, ServiceInterface.ofService options file s = .error fault → ∃ first second,
    FirstRepeat methodName s.methods first second ∧
      fault = .methodClash s.fullName first.fullName second.fullName (methodName second)
  agrees : ∀ i c, ServiceInterface.ofService options file s = .ok i →
    Controller.ofService options file s = .ok c → PairAgrees s i c

section

variable {options : Options} {file : File} {s : Service}

theorem ServiceInterface.ofService_eq_error_iff {fault : Fault} :
    ServiceInterface.ofService options file s = .error fault ↔ operationsOf s = .error fault := by
  unfold ServiceInterface.ofService
  cases operationsOf s with
  | error e => simp [bind, Except.bind]
  | ok operations => simp [bind, Except.bind, pure, Except.pure]

theorem pairAgrees_of_ofService {i : ServiceInterface} {c : Controller}
    (hi : ServiceInterface.ofService options file s = .ok i)
    (hc : Controller.ofService options file s = .ok c) : PairAgrees s i c := by
  obtain ⟨operations, hoperations, rfl⟩ := ServiceInterface.ofService_eq_ok_iff.mp hi
  obtain ⟨hn, rfl⟩ := operationsOf_eq_ok_iff.mp hoperations
  obtain ⟨endpoints, hendpoints, rfl⟩ := Controller.ofService_eq_ok_iff.mp hc
  have hnames : s.methods.map methodName = endpoints.map (·.handler.name) := by
    refine map_eq_map_of_forall₂ (hendpoints.imp fun m e he => ?_)
    exact (congrArg Operation.name (Endpoint.operation_of_ofMethod he)).symm
  have hlength := hendpoints.length_eq
  refine
    { interface := Artifact.text_serviceInterface _
      controller := Artifact.text_controller _
      operations := ?_
      endpoints := by rw [List.length_map, hlength]
      handlers := ?_
      names := hnames ▸ hn }
  · rw [List.forall₂_map_right_iff]
    exact List.forall₂_same.mpr fun m _ => declares_ofMethod m
  · intro k m o e hm ho he
    rw [List.getElem?_map, hm] at ho
    obtain rfl : Operation.ofMethod m = o := Option.some.inj ho
    obtain ⟨hk, rfl⟩ := List.getElem?_eq_some_iff.mp hm
    obtain ⟨hk', rfl⟩ := List.getElem?_eq_some_iff.mp he
    exact Endpoint.handles_of_ofMethod (hendpoints.get hk hk')

/-- **Interface and controller.** The interface of a service is refused exactly when two methods get
one name. The controller has a handler for each method of the interface, in order, which calls that
method on the service with a variable of the type that it takes, and returns what it gives. -/
theorem servicePair_of_service (options : Options) (file : File) (s : Service) :
    ServicePair options file s := by
  refine ⟨?_, ?_, fun i c hi hc => pairAgrees_of_ofService hi hc⟩
  · simp only [ServiceInterface.ofService_eq_error_iff]
    constructor
    · rintro ⟨fault, h⟩
      obtain ⟨first, second, hrepeat, -⟩ := exists_firstRepeat_of_operationsOf h
      exact hrepeat.not_nodup
    · intro hn
      cases h : operationsOf s with
      | error fault => exact ⟨fault, rfl⟩
      | ok operations => exact absurd (operationsOf_eq_ok_iff.mp h).1 hn
  · intro fault h
    exact exists_firstRepeat_of_operationsOf (ServiceInterface.ofService_eq_error_iff.mp h)

end

/-- A service with a method that takes the whole request as its body, and one that takes its request
from the path and replies with a field. -/
def lendingService : Service where
  name := "Loans"
  fullName := "lib.Loans"
  methods :=
    [{ name := "LendBook"
       fullName := "lib.Loans.LendBook"
       input := { name := "Loan", fullName := "lib.Loan", package := "lib.dto" }
       output := { name := "Loan", fullName := "lib.Loan", package := "lib.dto" } },
     { name := "FindBook"
       fullName := "lib.Loans.FindBook"
       input := {
         name := "FindBookRequest"
         fullName := "lib.FindBookRequest"
         package := "lib.dto"
         fields := [⟨"book_id", .scalar .string, .single, false, ""⟩] }
       output := {
         name := "FindBookReply"
         fullName := "lib.FindBookReply"
         package := "lib.dto"
         fields := [⟨"book", .message ⟨"Book", "lib.Book", "lib.dto"⟩, .single, false, ""⟩] }
       rule := some { pattern := some ⟨.get, "/v1/{book_id}"⟩, responseBody := "book" } }]

/-- Both classes of this service can be made. -/
theorem servicePair_lendingService : ServicePair {} {} lendingService ∧
    (∃ i, ServiceInterface.ofService {} {} lendingService = .ok i) ∧
    ∃ c, Controller.ofService {} {} lendingService = .ok c :=
  ⟨servicePair_of_service {} {} lendingService, exists_ok_of_isOk (by decide +kernel),
    exists_ok_of_isOk (by decide +kernel)⟩

end RestScaffold.Target
