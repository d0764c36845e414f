import RestScaffold.Proofs.FirstFault
import RestScaffold.Proofs.References

/-! # Lookups

Fields and methods refer to declarations by name. These are the names that are looked up when the
contract of a request is resolved, and resolution stops at the first that nothing bears.

* `Reference`, `references`: the names that are looked up, in the order in which they are;
* `Descriptor.Request.Dangling`: nothing in the request bears the name;
* `LooksUp`: a part of resolution looks up names in order, and its fault is the first that dangles;
* `looksUp_kindOf`, `looksUp_contractMessages`, `looksUp_contractFile`: what each part looks up;
* `looksUp_contractFiles`: a contract is resolved in the order of its references. -/

namespace RestScaffold

/-! ### References -/

namespace Contract

/-- A name that is looked up. -/
structure Reference where
  /-- The name as it is written. -/
  typeName : String
  /-- The full name of the message or the method that the name is looked up for. -/
  referrer : String
  /-- A method refers to a message that has a bean, a field to any declaration. -/
  toBean : Bool
deriving DecidableEq

/-- The fault of a name that is not found. -/
def Reference.fault (r : Reference) : Fault :=
  .unresolvedType r.typeName r.referrer

end Contract

namespace Descriptor

open Contract (Reference referredName)

/-- The full names of the messages of a file that beans are made for. -/
def File.beanNames (f : File) : List String :=
  (f.namedMessages.filter (!·.2.isMapEntry)).map (·.1)

/-- The full names of all messages that beans are made for. -/
def Request.beanNames (r : Request) : List String :=
  r.files.flatMap (·.beanNames)

/-- Nothing that may be meant bears the name. -/
def Request.Dangling (r : Request) (reference : Reference) : Prop :=
  referredName reference.typeName ∉ if reference.toBean then r.beanNames else r.typeNames

instance (r : Request) (reference : Reference) : Decidable (r.Dangling reference) :=
  inferInstanceAs (Decidable (_ ∉ _))

end Descriptor

namespace Contract

open Naming (qualify)

/-- The name that the type of a field refers to, if it refers to one. -/
def typeReferences (referrer : String) (f : Descriptor.Field) : List Reference :=
  if f.isReference then [⟨f.typeName, referrer, false⟩] else []

/-- The names that key and value of a map field refer to. -/
def entryReferences (registry : Registry) (referrer : String) (f : Descriptor.Field) :
    List Reference :=
  (mapEntryOf registry f).elim [] fun entry =>
    typeReferences referrer entry.key ++ typeReferences referrer entry.value

/-- The names that are looked up for the fields of a message. -/
def messageReferences (registry : Registry) (p : String × Descriptor.Message) : List Reference :=
  p.2.fields.flatMap fun f => typeReferences p.1 f ++ entryReferences registry p.1 f

/-- The names that are looked up for the messages of a file. Map entries are looked at only where
fields refer to them. -/
def fieldReferences (registry : Registry) (d : Descriptor.File) : List Reference :=
  (d.namedMessages.filter (!·.2.isMapEntry)).flatMap (messageReferences registry)

/-- The names that are looked up for a method of the service with the full name `scope`. -/
def methodReferences (scope : String) (m : Descriptor.Method) : List Reference :=
  [⟨m.input, qualify scope m.name, true⟩, ⟨m.output, qualify scope m.name, true⟩]

/-- The names that are looked up for the services of a file. -/
def serviceReferences (d : Descriptor.File) : List Reference :=
  d.services.flatMap fun s => s.methods.flatMap (methodReferences (qualify d.package s.name))

/-- All names that are looked up: those for the messages of all files, then those for the services
of the listed ones. -/
def references (registry : Registry) (request : Descriptor.Request) : List Reference :=
  request.files.flatMap (fieldReferences registry) ++
    (request.files.filter fun d => request.listed.contains d.name).flatMap serviceReferences

/-! ### Fields -/

/-- Does nothing bear the name? -/
def isDangling (request : Descriptor.Request) (r : Reference) : Bool :=
  decide (request.Dangling r)

/-- A part of resolution looks up the names in order. The first that dangles is its fault. -/
abbrev LooksUp (request : Descriptor.Request) (names : List Reference) {α : Type}
    (x : Except Fault α) : Prop :=
  StopsAtFirst (isDangling request) Reference.fault names x

/-- The registry finds the names that the request declares, and no other. -/
def Registry.Covers (registry : Registry) (request : Descriptor.Request) : Prop :=
  ∀ typeName, registry.resolve? typeName = none ↔ referredName typeName ∉ request.typeNames

section

variable {registry : Registry} {request : Descriptor.Request}

theorem looksUp_typeRefOf (hr : registry.Covers request) (referrer : String)
    (f : Descriptor.Field) :
    LooksUp request [⟨f.typeName, referrer, false⟩] (typeRefOf registry referrer f) := by
  have hbad : isDangling request ⟨f.typeName, referrer, false⟩ = true ↔
      registry.resolve? f.typeName = none :=
    decide_eq_true_iff.trans (hr f.typeName).symm
  unfold typeRefOf
  cases h : registry.resolve? f.typeName with
  | none => exact stopsAtFirst_of_bad (hbad.mpr h)
  | some e => exact stopsAtFirst_of_not_bad (by simp [hbad, h]) _

/-- A kind is found unless the type of the field refers to a name that is not. -/
theorem looksUp_kindOf (hr : registry.Covers request) (referrer : String)
    (f : Descriptor.Field) :
    LooksUp request (typeReferences referrer f) (kindOf registry referrer f).result := by
  unfold typeReferences
  cases hf : f.isReference with
  | false =>
      obtain ⟨kind, -, hok⟩ := kindOf_of_not_isReference hf
      rw [if_neg Bool.false_ne_true, hok]
      exact stopsAtFirst_ok _ _ kind
  | true =>
      obtain ⟨ofRef, -, hok⟩ := kindOf_of_isReference hf
      rw [if_pos rfl, hok]
      exact (looksUp_typeRefOf hr referrer f).map ofRef

theorem looksUp_cardinalityOf (hr : registry.Covers request) (referrer : String)
    (f : Descriptor.Field) :
    LooksUp request (entryReferences registry referrer f)
      (cardinalityOf registry referrer f).result := by
  unfold entryReferences cardinalityOf mapEntryOf
  by_cases hl : f.label = repeatedLabel
  · simp only [if_pos hl]
    cases (registry.resolve? f.typeName).bind (·.entry) with
    | none => exact stopsAtFirst_ok _ _ _
    | some entry =>
        simp only [Option.elim_some, Run.result_bind, Run.result_pure]
        refine (looksUp_kindOf hr referrer entry.key).bind fun key _ => ?_
        have hvalue := (looksUp_kindOf hr referrer entry.value).map (Cardinality.map key)
        rwa [map_eq_pure_bind] at hvalue
  · simp only [if_neg hl]
    exact stopsAtFirst_ok _ _ _

/-! ### Messages -/

theorem looksUp_contractField (hr : registry.Covers request) (s : SourceFile)
    (d : DeclaredMessage) (index : Nat) (f : Descriptor.Field) :
    LooksUp request (typeReferences d.fullName f ++ entryReferences registry d.fullName f)
      (contractField registry s d index f).result := by
  simp only [contractField, Run.result_bind, Run.result_pure]
  refine (looksUp_kindOf hr d.fullName f).bind fun kind _ => ?_
  have hcard := (looksUp_cardinalityOf hr d.fullName f).map (resolvedField s d index f kind)
  rwa [map_eq_pure_bind] at hcard

theorem looksUp_contractMessage (hr : registry.Covers request) (s : SourceFile)
    (d : DeclaredMessage) :
    LooksUp request (messageReferences registry (d.fullName, d.descriptor))
      (contractMessage registry s d).result := by
  have hfields : LooksUp request (messageReferences registry (d.fullName, d.descriptor))
      (d.descriptor.fields.zipIdx.mapM fun p => (contractField registry s d p.2 p.1).result) :=
    StopsAtFirst.mapM_zipIdx fun f _ index => looksUp_contractField hr s d index f
  have hmessage := hfields.map (resolvedMessage s d)
  rw [map_eq_pure_bind] at hmessage
  simp only [contractMessage, Run.result_bind, Run.result_mapM, Run.result_pure]
  exact hmessage

theorem looksUp_contractMessages (hr : registry.Covers request) (s : SourceFile) :
    LooksUp request (fieldReferences registry s.descriptor)
      (s.contractMessages registry).result := by
  have hbeans : fieldReferences registry s.descriptor =
      (s.declared.filter (!·.descriptor.isMapEntry)).flatMap fun d =>
        messageReferences registry (d.fullName, d.descriptor) := by
    unfold fieldReferences
    rw [← declaredMessages_map s.descriptor s.annotated, List.filter_map, List.flatMap_map]
    rfl
  rw [SourceFile.contractMessages, Run.result_mapM, hbeans]
  exact StopsAtFirst.mapM fun d _ => looksUp_contractMessage hr s d

theorem looksUp_resolveMessages (hr : registry.Covers request) (s : SourceFile) :
    LooksUp request (fieldReferences registry s.descriptor)
      (resolveMessages registry s).result := by
  have hrun : (resolveMessages registry s).result =
      (fun messages => (s, messages)) <$> (s.contractMessages registry).result := by
    rw [map_eq_pure_bind, resolveMessages, Run.result_bind]
    cases s.isListed <;> rfl
  rw [hrun]
  exact (looksUp_contractMessages hr s).map _

end

/-! ### Services -/

section

variable {request : Descriptor.Request} {all : List Message}

/-- A method finds the messages that beans are made for. -/
theorem looksUp_messageOf (ha : all.map (·.fullName) = request.beanNames)
    (referrer typeName : String) :
    LooksUp request [⟨typeName, referrer, true⟩] (messageOf all referrer typeName) := by
  have hmem : (∃ m ∈ all, m.fullName = referredName typeName) ↔
      referredName typeName ∈ request.beanNames := by
    rw [← ha, List.mem_map]
  have hbad : isDangling request ⟨typeName, referrer, true⟩ = true ↔
      ¬ ∃ m ∈ all, m.fullName = referredName typeName := by
    rw [hmem]
    exact decide_eq_true_iff
  unfold messageOf
  cases h : (all.filter (·.fullName = referredName typeName)).getLast? with
  | none =>
      have hnone := List.filter_eq_nil_iff.mp (List.getLast?_eq_none_iff.mp h)
      refine stopsAtFirst_of_bad (hbad.mpr ?_)
      rintro ⟨m, hm, heq⟩
      exact hnone m hm (decide_eq_true heq)
  | some m =>
      have hfound := List.mem_filter.mp (List.mem_of_getLast? h)
      refine stopsAtFirst_of_not_bad (fun hmissing => ?_) m
      exact hbad.mp hmissing ⟨m, hfound.1, of_decide_eq_true hfound.2⟩

theorem looksUp_contractMethod (ha : all.map (·.fullName) = request.beanNames)
    (s : SourceFile) (scope : String) (path : Path) (annotated : Option Annotated.Method)
    (m : Descriptor.Method) :
    LooksUp request (methodReferences scope m) (contractMethod all s scope path annotated m) := by
  unfold contractMethod
  refine (looksUp_messageOf ha (qualify scope m.name) m.input).bind fun input _ => ?_
  have houtput := (looksUp_messageOf ha (qualify scope m.name) m.output).map
    (resolvedMethod s scope path annotated m input)
  rwa [map_eq_pure_bind] at houtput

theorem looksUp_contractServices (ha : all.map (·.fullName) = request.beanNames)
    (s : SourceFile) :
    LooksUp request (serviceReferences s.descriptor) (s.contractServices all) := by
  have hservice : ∀ (service : Descriptor.Service) (index : Nat), LooksUp request
      (service.methods.flatMap (methodReferences (qualify s.descriptor.package service.name)))
      (contractService all s index service) := by
    intro service index
    have hmethods : LooksUp request
        (service.methods.flatMap (methodReferences (qualify s.descriptor.package service.name)))
        (service.methods.zipIdx.mapM fun p => contractMethod all s
          (qualify s.descriptor.package service.name) ((Path.service index).method p.2)
          (serviceAnnotations s index)[p.2]? p.1) :=
      StopsAtFirst.mapM_zipIdx fun m _ i => looksUp_contractMethod ha s _ _ _ m
    have hresolved := hmethods.map (resolvedService s index service)
    rwa [map_eq_pure_bind] at hresolved
  exact StopsAtFirst.mapM_zipIdx fun service _ index => hservice service index

theorem looksUp_contractFile (ha : all.map (·.fullName) = request.beanNames) (s : SourceFile)
    (messages : List Message) :
    LooksUp request (serviceReferences s.descriptor) (contractFile all s messages) := by
  have hfile := (looksUp_contractServices ha s).map (resolvedFile s messages)
  rwa [map_eq_pure_bind] at hfile

end

/-! ### Files -/

theorem covers_registryOf (options : Options) (request : Descriptor.Request)
    (annotations : Annotated.Request) : (registryOf options request annotations).Covers request :=
  fun _ => resolve?_eq_none_iff

theorem map_fullName_of_contractMessages {registry : Registry} {s : SourceFile}
    {messages : List Message} (h : (s.contractMessages registry).result = .ok messages) :
    messages.map (·.fullName) = s.descriptor.beanNames := by
  have hall := contractMessages_eq_ok_iff.mp h
  have hnames : (s.declared.filter (!·.descriptor.isMapEntry)).map (·.fullName) =
      messages.map (·.fullName) := by
    refine map_eq_map_of_forall₂ (hall.imp fun d m hm => ?_)
    obtain ⟨fields, -, rfl⟩ := contractMessage_eq_ok_iff.mp hm
    rfl
  rw [← hnames, Descriptor.File.beanNames, ← declaredMessages_map s.descriptor s.annotated,
    List.filter_map, List.map_map]
  rfl

section

variable {registry : Registry} {options : Options} {request : Descriptor.Request}
  {annotations : Annotated.Request} {resolved : List (SourceFile × List Message)}

theorem map_fst_of_resolved (h : List.Forall₂ (fun s p => p.1 = s ∧
      (s.contractMessages registry).result = .ok p.2)
        (sourceFiles options request annotations) resolved) :
    resolved.map (·.1) = sourceFiles options request annotations := by
  have hmap := map_eq_map_of_forall₂ (f := id) (g := Prod.fst) (h.imp fun s p hp => hp.1.symm)
  rw [← hmap, List.map_id]

theorem map_fullName_of_resolved (h : List.Forall₂ (fun s p => p.1 = s ∧
      (s.contractMessages registry).result = .ok p.2)
        (sourceFiles options request annotations) resolved) :
    (resolved.flatMap (·.2)).map (·.fullName) = request.beanNames := by
  have hnames : ∀ p ∈ resolved, p.2.map (·.fullName) = p.1.descriptor.beanNames := by
    intro p hp
    obtain ⟨s, -, rfl, hms⟩ := exists_left_of_forall₂ h p hp
    exact map_fullName_of_contractMessages hms
  calc (resolved.flatMap (·.2)).map (·.fullName)
      = resolved.flatMap fun p => p.1.descriptor.beanNames := by
        rw [List.map_flatMap]
        exact List.flatMap_congr hnames
    _ = (resolved.map (·.1)).flatMap fun s => s.descriptor.beanNames := by
        rw [List.flatMap_map]
    _ = request.beanNames := by
        rw [map_fst_of_resolved h, sourceFiles, List.flatMap_map]
        rfl

end

/-- A contract is resolved in the order of its references. -/
theorem looksUp_contractFiles (options : Options) (request : Descriptor.Request)
    (annotations : Annotated.Request) : LooksUp request
      (references (registryOf options request annotations) request)
      (contractFiles options request annotations).result := by
  have hr := covers_registryOf options request annotations
  have hmessages : LooksUp request
      (request.files.flatMap (fieldReferences (registryOf options request annotations)))
      ((sourceFiles options request annotations).mapM fun s =>
        (resolveMessages (registryOf options request annotations) s).result) := by
    have hall := StopsAtFirst.mapM fun s (_ : s ∈ sourceFiles options request annotations) =>
      looksUp_resolveMessages hr s
    rwa [sourceFiles, List.flatMap_map] at hall
  simp only [contractFiles, Run.result_bind, Run.result_mapM, Run.result_ofExcept]
  refine hmessages.bind fun resolved hresolved => ?_
  simp only [mapM_eq_ok_iff, resolveMessages_eq_ok_iff] at hresolved
  have hsources := map_fst_of_resolved hresolved
  have ha := map_fullName_of_resolved hresolved
  have hlisted : (request.files.filter fun d => request.listed.contains d.name).flatMap
      serviceReferences =
        (resolved.filter (·.1.isListed)).flatMap fun p => serviceReferences p.1.descriptor := by
    calc (request.files.filter fun d => request.listed.contains d.name).flatMap serviceReferences
        = ((sourceFiles options request annotations).filter (·.isListed)).flatMap fun s =>
            serviceReferences s.descriptor := by
          rw [sourceFiles, List.filter_map, List.flatMap_map]
          rfl
      _ = (resolved.filter (·.1.isListed)).flatMap fun p => serviceReferences p.1.descriptor := by
          rw [← hsources, List.filter_map, List.flatMap_map]
          rfl
  rw [hlisted]
  exact StopsAtFirst.mapM fun p _ => looksUp_contractFile ha p.1 p.2

end Contract

end RestScaffold
