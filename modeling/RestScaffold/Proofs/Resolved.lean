import RestScaffold.Proofs.FullNames

/-! # Resolved contracts

What a contract is made of when its references could be resolved.

* `contractField_eq_ok_iff`, `contractMessage_eq_ok_iff`, `contractMethod_eq_ok_iff`,
  `contractService_eq_ok_iff`: one declaration;
* `contractFiles_eq_ok_iff`, `forall₂_of_contractFiles`: the listed files of a request, by way of
  the messages of all files;
* `exists_message_of_named`, `exists_named_of_message`, `map_ref_contractEnumerations`: messages and
  enumerations by their full names. -/

namespace RestScaffold

namespace Contract

variable {registry : Registry} {s : SourceFile}

/-! ### Messages -/

/-- A field of a declared message whose kind and cardinality are known. -/
def resolvedField (s : SourceFile) (d : DeclaredMessage) (index : Nat) (f : Descriptor.Field)
    (kind : Kind) (cardinality : Cardinality) : Field where
  name := f.name
  kind := kind
  cardinality := cardinality
  required := ((d.annotated.elim [] (·.fields))[index]?).any (·.isRequired)
  comment := s.comment (d.path.field index)

theorem contractField_eq_ok_iff {d : DeclaredMessage} {index : Nat} {f : Descriptor.Field}
    {field : Field} : (contractField registry s d index f).result = .ok field ↔
      ∃ kind cardinality, (kindOf registry d.fullName f).result = .ok kind ∧
        (cardinalityOf registry d.fullName f).result = .ok cardinality ∧
        resolvedField s d index f kind cardinality = field := by
  simp only [contractField, Run.result_bind, Run.result_pure, bind_eq_ok_iff, Except.ok.injEq]
  constructor
  · rintro ⟨kind, hk, cardinality, hc, h⟩
    exact ⟨kind, cardinality, hk, hc, h⟩
  · rintro ⟨kind, cardinality, hk, hc, h⟩
    exact ⟨kind, hk, cardinality, hc, h⟩

/-- A declared message whose fields are resolved. -/
def resolvedMessage (s : SourceFile) (d : DeclaredMessage) (fields : List Field) : Message where
  name := d.descriptor.name
  fullName := d.fullName
  file := s.descriptor.name
  package := s.beanPackage
  comment := s.comment d.path
  fields := fields
  choices := contractChoices d.descriptor fields

theorem contractMessage_eq_ok_iff {d : DeclaredMessage} {m : Message} :
    (contractMessage registry s d).result = .ok m ↔ ∃ fields,
      ByIndex (fun j f field => (contractField registry s d j f).result = .ok field)
        d.descriptor.fields fields ∧ resolvedMessage s d fields = m := by
  simp only [contractMessage, Run.result_bind, Run.result_mapM, Run.result_pure, bind_eq_ok_iff,
    mapM_eq_ok_iff, Except.ok.injEq]
  rfl

theorem contractMessages_eq_ok_iff {ms : List Message} :
    (s.contractMessages registry).result = .ok ms ↔
      List.Forall₂ (fun d m => (contractMessage registry s d).result = .ok m)
        (s.declared.filter (!·.descriptor.isMapEntry)) ms := by
  rw [SourceFile.contractMessages, Run.result_mapM, mapM_eq_ok_iff]

theorem sublist_of_mem_contractChoices {m : Descriptor.Message} {fields : List Field} {c : Choice}
    (hc : c ∈ contractChoices m fields) : c.fields.Sublist fields := by
  rw [contractChoices, List.mem_filter, List.mem_mapIdx] at hc
  obtain ⟨⟨i, hi, rfl⟩, -⟩ := hc
  have hpairs : ∀ (as : List Descriptor.Field) (bs : List Field),
      ((as.zip bs).map Prod.snd).Sublist bs := by
    intro as bs
    rw [List.zip_eq_zip_take_min, List.map_snd_zip (by simp)]
    exact List.take_sublist _ bs
  exact (List.filter_sublist.map Prod.snd).trans (hpairs m.fields fields)

theorem mem_of_mem_contractChoices {m : Descriptor.Message} {fields : List Field} {c : Choice}
    (hc : c ∈ contractChoices m fields) : ∀ f ∈ c.fields, f ∈ fields :=
  fun _ hf => (sublist_of_mem_contractChoices hc).subset hf

/-! ### Services -/

variable {all : List Message}

/-- A message that a method refers to is one of the messages, and has the name referred to. -/
theorem messageOf_eq_ok {referrer typeName : String} {m : Message}
    (h : messageOf all referrer typeName = .ok m) :
    m ∈ all ∧ m.fullName = referredName typeName := by
  unfold messageOf at h
  split at h
  · rename_i found hfound
    obtain rfl := Except.ok.inj h
    have hmem := List.mem_filter.mp (List.mem_of_getLast? hfound)
    exact ⟨hmem.1, of_decide_eq_true hmem.2⟩
  · exact absurd h (by simp)

/-- A method whose messages are known. -/
def resolvedMethod (s : SourceFile) (scope : String) (path : Path)
    (annotated : Option Annotated.Method) (m : Descriptor.Method) (input output : Message) :
    Method where
  name := m.name
  fullName := Naming.qualify scope m.name
  comment := s.comment path
  input := input
  output := output
  rule := annotated.bind (·.rule)

theorem contractMethod_eq_ok_iff {scope : String} {path : Path}
    {annotated : Option Annotated.Method} {m : Descriptor.Method} {method : Method} :
    contractMethod all s scope path annotated m = .ok method ↔ ∃ input output,
      messageOf all (Naming.qualify scope m.name) m.input = .ok input ∧
      messageOf all (Naming.qualify scope m.name) m.output = .ok output ∧
      resolvedMethod s scope path annotated m input output = method := by
  simp only [contractMethod, bind_eq_ok_iff, pure_eq_ok_iff]
  constructor
  · rintro ⟨input, hi, output, ho, h⟩
    exact ⟨input, output, hi, ho, h⟩
  · rintro ⟨input, output, hi, ho, h⟩
    exact ⟨input, hi, output, ho, h⟩

/-- What is annotated to the `index`-th service of a file. -/
def serviceAnnotations (s : SourceFile) (index : Nat) : List Annotated.Method :=
  ((s.annotated.elim [] (·.services))[index]?).elim [] (·.methods)

/-- A service whose methods are resolved. -/
def resolvedService (s : SourceFile) (index : Nat) (service : Descriptor.Service)
    (methods : List Method) : Service where
  name := service.name
  fullName := Naming.qualify s.descriptor.package service.name
  comment := s.comment (.service index)
  methods := methods

theorem contractService_eq_ok_iff {index : Nat} {descriptor : Descriptor.Service}
    {service : Service} : contractService all s index descriptor = .ok service ↔ ∃ methods,
      ByIndex (fun i m method => contractMethod all s
          (Naming.qualify s.descriptor.package descriptor.name) ((Path.service index).method i)
          (serviceAnnotations s index)[i]? m = .ok method) descriptor.methods methods ∧
        resolvedService s index descriptor methods = service := by
  simp only [contractService, bind_eq_ok_iff, pure_eq_ok_iff, mapM_eq_ok_iff]
  rfl

theorem contractServices_eq_ok_iff {services : List Service} :
    s.contractServices all = .ok services ↔
      ByIndex (fun i descriptor service => contractService all s i descriptor = .ok service)
        s.descriptor.services services := by
  rw [SourceFile.contractServices, mapM_eq_ok_iff]
  rfl

theorem mem_of_contractServices {services : List Service} (h : s.contractServices all = .ok services)
    {service : Service} (hs : service ∈ services) {method : Method} (hm : method ∈ service.methods) :
    method.input ∈ all ∧ method.output ∈ all := by
  obtain ⟨⟨descriptor, index⟩, -, hservice⟩ :=
    exists_left_of_forall₂ (contractServices_eq_ok_iff.mp h) service hs
  obtain ⟨methods, hmethods, rfl⟩ := contractService_eq_ok_iff.mp hservice
  obtain ⟨⟨m, i⟩, -, hmethod⟩ := exists_left_of_forall₂ hmethods method hm
  obtain ⟨input, output, hi, ho, rfl⟩ := contractMethod_eq_ok_iff.mp hmethod
  exact ⟨(messageOf_eq_ok hi).1, (messageOf_eq_ok ho).1⟩

/-! ### Files -/

/-- A file whose messages and services are resolved. -/
def resolvedFile (s : SourceFile) (messages : List Message) (services : List Service) : File where
  name := s.descriptor.name
  package := s.package
  messages := messages
  enumerations := s.contractEnumerations
  services := services

theorem contractFile_eq_ok_iff {messages : List Message} {file : File} :
    contractFile all s messages = .ok file ↔
      ∃ services, s.contractServices all = .ok services ∧ resolvedFile s messages services = file := by
  simp only [contractFile, bind_eq_ok_iff, pure_eq_ok_iff]
  rfl

theorem resolveMessages_eq_ok_iff {p : SourceFile × List Message} :
    (resolveMessages registry s).result = .ok p ↔
      p.1 = s ∧ (s.contractMessages registry).result = .ok p.2 := by
  have hgo : ∀ ms : List Message, (if !s.isListed then do
        Run.notify (.skipping s.descriptor.name)
        pure (s, ms)
      else pure (s, ms) : Run (SourceFile × List Message)).result = .ok (s, ms) := by
    intro ms
    cases s.isListed <;> rfl
  simp only [resolveMessages, Run.result_bind, bind_eq_ok_iff]
  constructor
  · rintro ⟨ms, hm, h⟩
    obtain rfl := Except.ok.inj ((hgo ms).symm.trans h)
    exact ⟨rfl, hm⟩
  · rintro ⟨rfl, hm⟩
    exact ⟨p.2, hm, hgo p.2⟩

/-- The listed files of a request could be resolved: so could the messages of all files, and with
these the services of the listed ones. -/
theorem contractFiles_eq_ok_iff {options : Options} {request : Descriptor.Request}
    {annotations : Annotated.Request} {files : List File} :
    (contractFiles options request annotations).result = .ok files ↔
      ∃ resolved : List (SourceFile × List Message),
        List.Forall₂ (fun s p => p.1 = s ∧ (s.contractMessages
            (registryOf options request annotations)).result = .ok p.2)
          (sourceFiles options request annotations) resolved ∧
        List.Forall₂ (fun p file => contractFile (resolved.flatMap (·.2)) p.1 p.2 = .ok file)
          (resolved.filter (·.1.isListed)) files := by
  simp only [contractFiles, Run.result_bind, Run.result_mapM, Run.result_ofExcept, bind_eq_ok_iff,
    mapM_eq_ok_iff, resolveMessages_eq_ok_iff, registryOf]

/-- A message that is resolved in one of the files of a request. -/
def ResolvedIn (options : Options) (request : Descriptor.Request)
    (annotations : Annotated.Request) (file : Descriptor.File) (m : Message) : Prop :=
  ∃ messages, ((SourceFile.ofDescriptor options request annotations file).contractMessages
      (registryOf options request annotations)).result = .ok messages ∧ m ∈ messages

/-- The listed files in step with their contracts. The messages that their methods refer to are
from any file of the request. -/
theorem forall₂_of_contractFiles {options : Options} {request : Descriptor.Request}
    {annotations : Annotated.Request} {files : List File}
    (h : (contractFiles options request annotations).result = .ok files) :
    ∃ all : List Message,
      (∀ m ∈ all, ∃ file ∈ request.files, ResolvedIn options request annotations file m) ∧
      List.Forall₂ (fun d file => ∃ messages,
          ((SourceFile.ofDescriptor options request annotations d).contractMessages
            (registryOf options request annotations)).result = .ok messages ∧
          contractFile all (.ofDescriptor options request annotations d) messages = .ok file)
        (request.files.filter fun d => request.listed.contains d.name) files := by
  obtain ⟨resolved, hresolved, hfiles⟩ := contractFiles_eq_ok_iff.mp h
  have hsources := hresolved
  rw [sourceFiles, List.forall₂_map_left_iff] at hsources
  refine ⟨resolved.flatMap (·.2), ?_, ?_⟩
  · intro m hm
    obtain ⟨p, hp, hmp⟩ := List.mem_flatMap.mp hm
    obtain ⟨d, hd, -, hms⟩ := exists_left_of_forall₂ hsources p hp
    exact ⟨d, hd, p.2, hms, hmp⟩
  · have hlisted := List.rel_filter (p := fun d => request.listed.contains d.name)
      (q := fun p : SourceFile × List Message => p.1.isListed)
      (fun d p hp => by simp only [hp.1]; rfl) hsources
    refine (forall₂_comp hlisted hfiles).imp ?_
    intro d file h
    obtain ⟨⟨s, messages⟩, ⟨hs, hms⟩, hfile⟩ := h
    obtain rfl : s = .ofDescriptor options request annotations d := hs
    exact ⟨messages, hms, hfile⟩

theorem exists_file_of_listed
    {options : Options} {request : Descriptor.Request}
    {annotations : Annotated.Request} {files : List File}
    (hf : (contractFiles options request annotations).result = .ok files) {d : Descriptor.File}
    (hd : d ∈ request.files) (hl : request.listed.contains d.name = true) :
    ∃ file ∈ files, file.name = d.name ∧
      file.enumerations =
        (SourceFile.ofDescriptor options request annotations d).contractEnumerations ∧
      ((SourceFile.ofDescriptor options request annotations d).contractMessages
        (registryOf options request annotations)).result = .ok file.messages := by
  obtain ⟨all, -, hfiles⟩ := forall₂_of_contractFiles hf
  obtain ⟨file, hfile, messages, hms, hok⟩ :=
    exists_right_of_forall₂ hfiles d (List.mem_filter.mpr ⟨hd, hl⟩)
  obtain ⟨services, -, rfl⟩ := contractFile_eq_ok_iff.mp hok
  exact ⟨_, hfile, rfl, rfl, hms⟩

theorem exists_source_of_enumeration
    {options : Options} {request : Descriptor.Request}
    {annotations : Annotated.Request} {files : List File}
    (hf : (contractFiles options request annotations).result = .ok files) {file : File}
    (hfile : file ∈ files) {e : Enumeration} (he : e ∈ file.enumerations) :
    ∃ d ∈ request.files,
      e ∈ (SourceFile.ofDescriptor options request annotations d).contractEnumerations := by
  obtain ⟨all, -, hfiles⟩ := forall₂_of_contractFiles hf
  obtain ⟨d, hd, messages, -, hok⟩ := exists_left_of_forall₂ hfiles file hfile
  obtain ⟨services, -, rfl⟩ := contractFile_eq_ok_iff.mp hok
  exact ⟨d, (List.mem_filter.mp hd).1, he⟩

/-! ### Declarations by name -/

variable {messages : List Message}

theorem exists_message_of_named (h : (s.contractMessages registry).result = .ok messages)
    {p : String × Descriptor.Message} (hp : p ∈ s.descriptor.namedMessages)
    (he : p.2.isMapEntry = false) : ∃ m ∈ messages, m.ref = ⟨p.2.name, p.1, s.beanPackage⟩ := by
  rw [← declaredMessages_map s.descriptor s.annotated] at hp
  obtain ⟨d, hd, rfl⟩ := List.mem_map.mp hp
  have hbean : d ∈ s.declared.filter (!·.descriptor.isMapEntry) :=
    List.mem_filter.mpr ⟨hd, by simpa using he⟩
  obtain ⟨m, hm, hok⟩ := exists_right_of_forall₂ (contractMessages_eq_ok_iff.mp h) d hbean
  obtain ⟨fields, -, rfl⟩ := contractMessage_eq_ok_iff.mp hok
  exact ⟨_, hm, rfl⟩

theorem exists_named_of_message (h : (s.contractMessages registry).result = .ok messages)
    {m : Message} (hm : m ∈ messages) : ∃ p ∈ s.descriptor.namedMessages,
      p.2.isMapEntry = false ∧ m.ref = ⟨p.2.name, p.1, s.beanPackage⟩ ∧
      ∀ field ∈ m.fields, ∃ f ∈ p.2.fields, ∃ d j,
        (contractField registry s d j f).result = .ok field := by
  obtain ⟨d, hd, hok⟩ := exists_left_of_forall₂ (contractMessages_eq_ok_iff.mp h) m hm
  obtain ⟨hdeclared, hentry⟩ := List.mem_filter.mp hd
  obtain ⟨fields, hfields, rfl⟩ := contractMessage_eq_ok_iff.mp hok
  refine ⟨(d.fullName, d.descriptor), ?_, by simpa using hentry, rfl, ?_⟩
  · rw [← declaredMessages_map s.descriptor s.annotated]
    exact List.mem_map_of_mem hdeclared
  · intro field hfield
    obtain ⟨⟨f, j⟩, hf, hok⟩ := exists_left_of_forall₂ hfields field hfield
    exact ⟨f, List.fst_mem_of_mem_zipIdx hf, d, j, hok⟩

/-- The reference to an enumeration. -/
def Enumeration.ref (e : Enumeration) : TypeRef :=
  ⟨e.name, e.fullName, e.package⟩

theorem map_ref_contractEnumeration (scope : String) (place : Nat → Path)
    (es : List Descriptor.Enumeration) :
    (es.mapIdx fun i e => contractEnumeration s scope (place i) e).map Enumeration.ref =
      (Descriptor.namedIn scope es).map fun p => ⟨p.2.name, p.1, s.beanPackage⟩ := by
  rw [Descriptor.namedIn, List.map_map, List.mapIdx_eq_zipIdx_map, List.map_map]
  -- The index only says where the enumeration stands, which the reference does not tell.
  calc (es.zipIdx.map fun p => (⟨p.1.name, Naming.qualify scope p.1.name, s.beanPackage⟩ : TypeRef))
      = (es.zipIdx.map (·.1)).map fun e =>
          ⟨e.name, Naming.qualify scope e.name, s.beanPackage⟩ := by
        rw [List.map_map]
        rfl
    _ = _ := by
        rw [List.zipIdx_map_fst]
        rfl

/-- The enumerations in the contract are the named ones, in order. -/
theorem map_ref_contractEnumerations (s : SourceFile) :
    s.contractEnumerations.map Enumeration.ref =
      s.descriptor.namedEnumerations.map fun p => ⟨p.2.name, p.1, s.beanPackage⟩ := by
  rw [SourceFile.contractEnumerations, Descriptor.File.namedEnumerations, List.map_append,
    List.map_append, List.map_flatMap, List.map_flatMap, map_ref_contractEnumeration,
    ← declaredMessages_map s.descriptor s.annotated, List.flatMap_map]
  refine congrArg _ (List.flatMap_congr fun d _ => ?_)
  exact map_ref_contractEnumeration d.fullName d.path.nestedEnumeration d.descriptor.enumerations

theorem exists_enumeration_of_named {p : String × Descriptor.Enumeration}
    (hp : p ∈ s.descriptor.namedEnumerations) :
    ∃ e ∈ s.contractEnumerations, e.ref = ⟨p.2.name, p.1, s.beanPackage⟩ := by
  rw [← List.mem_map, map_ref_contractEnumerations]
  exact List.mem_map_of_mem hp

theorem exists_named_of_enumeration {e : Enumeration} (he : e ∈ s.contractEnumerations) :
    ∃ p ∈ s.descriptor.namedEnumerations, e.ref = ⟨p.2.name, p.1, s.beanPackage⟩ := by
  have hmem := List.mem_map_of_mem (f := Enumeration.ref) he
  rw [map_ref_contractEnumerations] at hmem
  obtain ⟨p, hp, heq⟩ := List.mem_map.mp hmem
  exact ⟨p, hp, heq.symm⟩

end Contract

end RestScaffold
