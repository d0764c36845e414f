import RestScaffold.Proofs.BeanLines
import RestScaffold.Proofs.Bindings
import RestScaffold.Proofs.ServiceLines

/-! # Accessors

A handler calls setters on the request and a getter on the response; the beans of the two messages
declare them. Both sides make the names from the names of the contract's fields.

* `Parameter.setter_setterCall`: the setter that a call names, by the field that is handed over;
* `AccessorsAgree`: the calls of a handler against the accessors of the beans, and the lines in which
  the sources have them;
* `accessor_infix_text`: the source of a bean has the accessors of each field;
* `Controller.accessorsAgree_of_ofService`: getters always agree, and setters do for fields from
  the path and from the body. The name of a field from the query is made twice, so that its setter
  agrees exactly when the humps of the name are visible. -/

namespace RestScaffold.Target

open Contract (File Service Message Field)
open Http (wholeMessage)
open Naming (memberName HumpsVisible)
open Text (splitAt)

/-! ### Setters -/

theorem Parameter.setter_setterCall (target : String) (p : Parameter) :
    (p.setterCall target).setter = "set" ++ Text.upperFirst (memberName p.name) := rfl

theorem setter_ofField (f : Field) :
    (Property.ofField f).setter = "set" ++ Text.upperFirst (memberName f.name) := rfl

/-- A setter name that is made of a member name once more is the bean's exactly when the humps of
the member name are visible. -/
theorem setter_of_memberName_iff (f : Field) :
    "set" ++ Text.upperFirst (memberName (memberName f.name)) = (Property.ofField f).setter ↔
      HumpsVisible (Property.ofField f).name.toList := by
  rw [setter_ofField, String.append_right_inj, Naming.upperFirst_memberName_inj]
  exact Naming.memberName_memberName_eq_iff f.name

/-! ### Agreement -/

/-- The accessors that the handler of a method calls in a controller, against those of the two beans.
-/
structure AccessorsAgree (c : Controller) (m : Contract.Method) (e : Endpoint) : Prop where
  /-- The handler is written in the source of the controller, with a call of a setter for each
  parameter that is handed to the request. -/
  written : linesOf (e.handler.block c.serviceVariable) <:+: splitAt '\n' (Artifact.controller c).text
  calls : e.handler.setters = e.boundParameters.map (Parameter.setterCall e.requestVariable)
  /-- Every setter call hands over a parameter that is bound to a field of the request. -/
  bound : ∀ p ∈ e.boundParameters, ∃ f, p.Binds m f
  /-- It names the setter of the field's property; for a field from the query, exactly when the
  humps of the property's name are visible. -/
  setter : ∀ p ∈ e.boundParameters, ∀ f, p.Binds m f →
    Property.ofField f ∈ (Bean.ofMessage m.input).properties ∧
      ((p.setterCall e.requestVariable).setter = (Property.ofField f).setter ↔
        (p.isQuery → HumpsVisible (Property.ofField f).name.toList))
  /-- The source of the request's bean declares the setter of each property. -/
  declared : ∀ f ∈ m.input.fields, linesOf (setterBlock (Property.ofField f).type.text
      (Property.ofField f).setter (Property.ofField f).name) <:+:
    splitAt '\n' (Artifact.bean (.ofMessage m.input)).text
  /-- A reply that is a field of the response is taken by the getter of the field's property, which
  the source of the response's bean declares. -/
  getter : ∀ g ∈ m.output.fields, g.name = (effectiveRule m).responseBody →
    g.name ≠ "" → g.name ≠ wholeMessage →
    Property.ofField g ∈ (Bean.ofMessage m.output).properties ∧
      e.handler.getter = some (Property.ofField g).getter ∧
      linesOf (getterBlock (Property.ofField g).type.text (Property.ofField g).getter
          (Property.ofField g).name) <:+:
        splitAt '\n' (Artifact.bean (.ofMessage m.output)).text

theorem accessor_infix_text {m : Message} {f : Field} (hf : f ∈ m.fields)
    {block : List (Nat × String)}
    (h : block ∈ [getterBlock (Property.ofField f).type.text (Property.ofField f).getter
        (Property.ofField f).name,
      setterBlock (Property.ofField f).type.text (Property.ofField f).setter
        (Property.ofField f).name]) :
    linesOf block <:+: splitAt '\n' (Artifact.bean (.ofMessage m)).text := by
  apply linesOf_infix_text
  refine List.mem_append_right _ ?_
  exact List.mem_flatMap.mpr ⟨.ofField f, List.mem_map_of_mem hf, h⟩

theorem Endpoint.setter_iff {m : Contract.Method} {e : Endpoint} (h : Endpoint.ofMethod m = .ok e)
    {p : Parameter} (hp : p ∈ e.boundParameters) {f : Field} (hf : p.Binds m f) :
    (p.setterCall e.requestVariable).setter = (Property.ofField f).setter ↔
      (p.isQuery → HumpsVisible (Property.ofField f).name.toList) := by
  obtain ⟨g, hg, hname⟩ := exists_binds h hp
  have hfg : g.name = f.name := hg.2.trans hf.2.symm
  rw [Parameter.setter_setterCall, hname, hfg]
  cases p.isQuery with
  | false => simp [setter_ofField]
  | true => simpa using setter_of_memberName_iff f

theorem Endpoint.replyGetter_of_field {m : Contract.Method} {e : Endpoint}
    (h : Endpoint.ofMethod m = .ok e) (hne : (effectiveRule m).responseBody ≠ "")
    (hnw : (effectiveRule m).responseBody ≠ wholeMessage) :
    e.replyGetter = some ("get" ++ Text.upperFirst (memberName (effectiveRule m).responseBody)) := by
  obtain ⟨-, vars, path, body, reply, -, -, -, hreply, rfl⟩ := ofMethod_eq_ok_iff.mp h
  rcases replyOf_eq_ok_iff.mp hreply with ⟨hw, -⟩ | ⟨-, f, -, rfl⟩
  · exact absurd hw (not_or.mpr ⟨hne, hnw⟩)
  · simp [replyGetter, ofParts]

theorem Endpoint.accessorsAgree {c : Controller} {m : Contract.Method} {e : Endpoint}
    (h : Endpoint.ofMethod m = .ok e) (he : e ∈ c.endpoints) : AccessorsAgree c m e where
  written := handler_infix_text he
  calls := rfl
  bound := fun p hp => by
    obtain ⟨f, hf, -⟩ := exists_binds h hp
    exact ⟨f, hf⟩
  setter := fun p hp f hf => ⟨List.mem_map_of_mem hf.1, setter_iff h hp hf⟩
  declared := fun f hf => accessor_infix_text hf (List.mem_cons_of_mem _ List.mem_cons_self)
  getter := fun g hg hname hne hnw => by
    rw [hname] at hne hnw
    refine ⟨List.mem_map_of_mem hg, ?_, accessor_infix_text hg List.mem_cons_self⟩
    have hgetter := replyGetter_of_field h hne hnw
    rw [← hname] at hgetter
    exact hgetter

/-- **Accessors agree.** Each handler of a controller calls the setters and the getter that the
beans of its method declare, but for the setters of fields from the query whose names have a hump
that cannot be seen. -/
theorem Controller.accessorsAgree_of_ofService {options : Options} {file : File} {s : Service}
    {c : Controller} (h : Controller.ofService options file s = .ok c) :
    List.Forall₂ (AccessorsAgree c) s.methods c.endpoints := by
  obtain ⟨endpoints, hall, rfl⟩ := ofService_eq_ok_iff.mp h
  have hmem : List.Forall₂ (fun e m => e ∈ endpoints ∧ Endpoint.ofMethod m = .ok e) endpoints
      s.methods :=
    (List.forall₂_and_left _ _).mpr ⟨fun e he => he, hall.flip⟩
  exact hmem.flip.imp fun m e he => Endpoint.accessorsAgree he.2 he.1

/-! ### A field whose setter is missed -/

/-- A request with one field from the path, one from the query and one in the body. -/
def moveRequest : Message where
  name := "MoveRequest"
  fullName := "p.MoveRequest"
  file := "p.proto"
  package := "p.dto"
  fields :=
    [⟨"point_id", .scalar .string, .single, false, ""⟩,
     ⟨"x_y_z", .scalar .string, .single, false, ""⟩,
     ⟨"new_place", .message ⟨"Place", "p.Place", "p.dto"⟩, .single, false, ""⟩]

/-- A method that takes such a request. -/
def moveMethod : Contract.Method where
  name := "Move"
  fullName := "p.Points.Move"
  input := moveRequest
  output := moveRequest
  rule := some { pattern := some ⟨.post, "/v1/{point_id}"⟩, body := "new_place",
                 responseBody := "new_place" }

/-- The file of the method. -/
def moveFile : File where
  name := "p.proto"
  package := "p"

/-- A service with this method. -/
def moveService : Service where
  name := "Points"
  fullName := "p.Points"
  methods := [moveMethod]

theorem boundParameters_moveMethod :
    (Endpoint.ofMethod moveMethod).toOption.map Endpoint.boundParameters = some
      [⟨.path "point_id", .builtin "String", "point_id"⟩,
       ⟨.query "x_y_z" false, .builtin "String", "xYZ"⟩,
       ⟨.body, .declared ⟨"Place", "p.Place", "p.dto"⟩, "new_place"⟩] := by
  decide +kernel

theorem exists_controller_moveService :
    ∃ e c, Endpoint.ofMethod moveMethod = .ok e ∧
      Controller.ofService {} moveFile moveService = .ok c ∧ c.endpoints = [e] := by
  cases h : Endpoint.ofMethod moveMethod with
  | error fault => simpa [h, Except.toOption] using boundParameters_moveMethod
  | ok e =>
      refine ⟨e, _, rfl, Controller.ofService_eq_ok_iff.mpr ⟨[e], ?_, rfl⟩, rfl⟩
      exact List.Forall₂.cons h List.Forall₂.nil

/-- The controller of this service calls the accessors that its beans have, as far as the humps
of their names are visible. -/
theorem accessorsAgree_moveService :
    ∃ c, Controller.ofService {} moveFile moveService = .ok c ∧
      List.Forall₂ (AccessorsAgree c) moveService.methods c.endpoints := by
  obtain ⟨-, c, -, hc, -⟩ := exists_controller_moveService
  exact ⟨c, hc, Controller.accessorsAgree_of_ofService hc⟩

/-- The handler calls `setXYz` for the field `x_y_z`, and the bean declares `setXYZ`. -/
theorem not_forall_setter_eq :
    ¬ ∀ (options : Options) (file : File) (s : Service) (c : Controller),
      Controller.ofService options file s = .ok c →
        List.Forall₂ (fun m e => ∀ p ∈ e.boundParameters, ∀ f, p.Binds m f →
          (p.setterCall e.requestVariable).setter = (Property.ofField f).setter)
          s.methods c.endpoints := by
  intro hall
  obtain ⟨e, c, he, hc, hce⟩ := exists_controller_moveService
  have hb := boundParameters_moveMethod
  simp only [he, Except.toOption, Option.map_some, Option.some.injEq] at hb
  have hmove := hall {} moveFile moveService c hc
  rw [hce] at hmove
  obtain ⟨hcalls, -⟩ := List.forall₂_cons.mp hmove
  have hp : (⟨.query "x_y_z" false, .builtin "String", "xYZ"⟩ : Parameter) ∈ e.boundParameters := by
    simp [hb]
  have hset := hcalls _ hp ⟨"x_y_z", .scalar .string, .single, false, ""⟩
    ⟨by simp [moveMethod, moveRequest], rfl⟩
  rw [Parameter.setter_setterCall] at hset
  revert hset
  decide

end RestScaffold.Target
