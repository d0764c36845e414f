import RestScaffold.Proofs.Places
import RestScaffold.Proofs.Resolved

/-! # Annotations and comments in the contract

Every element of a resolved contract comes from one place of the request, and what it knows about
requirements, rules and comments was found at that place.

* `FieldPlaced`, `MessagePlaced`, `EnumerationPlaced`, `MethodPlaced`, `ServicePlaced`: one element
  at its place;
* `FilePlaced`: every element of a file at its place;
* `filesPlaced_of_contractFiles`: all files of a contract are placed. -/

namespace RestScaffold.Contract

/-! ### Elements at their places -/

/-- A field is marked as required in the annotations of its file, at the index path of its message
and its own index. -/
def Required (annotations : Annotated.Request) (file : String) (path : IndexPath) (j : Nat) :
    Prop :=
  ∃ af ∈ annotations.files, af.name? = some file ∧ ∃ m f o, af.message? path = some m ∧
    m.fields[j]? = some f ∧ f.options = some o ∧ Annotated.requiredBehavior ∈ o.behaviors

/-- A method has a rule in the annotations of its file, at the indices of its service and itself. -/
def Ruled (annotations : Annotated.Request) (file : String) (service method : Nat)
    (rule : Http.Rule) : Prop :=
  ∃ af ∈ annotations.files, af.name? = some file ∧ ∃ m o, af.method? service method = some m ∧
    m.options = some o ∧ o.rule = some rule

/-- The `j`-th field of the message at an index path. -/
structure FieldPlaced (annotations : Annotated.Request) (file : Descriptor.File) (path : IndexPath)
    (j : Nat) (f : Descriptor.Field) (field : Field) : Prop where
  name : field.name = f.name
  required : field.required = true ↔ Required annotations file.name path j
  comment : CommentAt file.locations (placeOf path ++ [2, Int32.ofNat j]) field.comment

/-- The message at an index path. -/
structure MessagePlaced (annotations : Annotated.Request) (file : Descriptor.File)
    (path : IndexPath) (message : Message) : Prop where
  fields : ∃ m, file.message? path = some m ∧ message.name = m.name ∧
    ByIndex (FieldPlaced annotations file path) m.fields message.fields
  choices : ∀ c ∈ message.choices, ∀ f ∈ c.fields, f ∈ message.fields
  comment : CommentAt file.locations (placeOf path) message.comment

/-- The enumeration at a place. -/
structure EnumerationPlaced (file : Descriptor.File) (place : Path) (e : Descriptor.Enumeration)
    (enumeration : Enumeration) : Prop where
  name : enumeration.name = e.name
  values : ByIndex (fun v name value => value.name = name ∧
    CommentAt file.locations (place ++ [2, Int32.ofNat v]) value.comment) e.values
      enumeration.values
  comment : CommentAt file.locations place enumeration.comment

/-- A message of any file of the request. -/
def MessageOfRequest (request : Descriptor.Request) (annotations : Annotated.Request)
    (message : Message) : Prop :=
  ∃ file ∈ request.files, ∃ path, MessagePlaced annotations file path message

/-- The `i`-th method of the `s`-th service. -/
structure MethodPlaced (request : Descriptor.Request) (annotations : Annotated.Request)
    (file : Descriptor.File) (s i : Nat) (m : Descriptor.Method) (method : Method) : Prop where
  name : method.name = m.name
  input : MessageOfRequest request annotations method.input
  output : MessageOfRequest request annotations method.output
  rule : ∀ rule, method.rule = some rule ↔ Ruled annotations file.name s i rule
  comment : CommentAt file.locations [6, Int32.ofNat s, 2, Int32.ofNat i] method.comment

/-- The `s`-th service. -/
structure ServicePlaced (request : Descriptor.Request) (annotations : Annotated.Request)
    (file : Descriptor.File) (s : Nat) (descriptor : Descriptor.Service) (service : Service) :
    Prop where
  name : service.name = descriptor.name
  methods : ByIndex (MethodPlaced request annotations file s) descriptor.methods service.methods
  comment : CommentAt file.locations [6, Int32.ofNat s] service.comment

/-- The enumerations of a file: its own, then those in the message at each index path. -/
def EnumerationsPlaced (file : Descriptor.File) (enumerations : List Enumeration) : Prop :=
  ∃ own nested, enumerations = own ++ List.flatten nested ∧
    ByIndex (fun i => EnumerationPlaced file [5, Int32.ofNat i]) file.enumerations own ∧
    List.Forall₂ (fun path inner => ∃ m, file.message? path = some m ∧
        ByIndex (fun i => EnumerationPlaced file (placeOf path ++ [4, Int32.ofNat i]))
          m.enumerations inner) file.messagePaths nested

/-- The index paths of the messages that beans are made for. -/
def beanPaths (file : Descriptor.File) : List IndexPath :=
  file.messagePaths.filter fun path => (file.message? path).any (!·.isMapEntry)

/-- Every element of a file stands at its place. -/
structure FilePlaced (request : Descriptor.Request) (annotations : Annotated.Request)
    (descriptor : Descriptor.File) (file : File) : Prop where
  name : file.name = descriptor.name
  messages : List.Forall₂ (MessagePlaced annotations descriptor) (beanPaths descriptor)
    file.messages
  enumerations : EnumerationsPlaced descriptor file.enumerations
  services : ByIndex (ServicePlaced request annotations descriptor) descriptor.services
    file.services

theorem mem_beanPaths {file : Descriptor.File} {path : IndexPath} : path ∈ beanPaths file ↔
    ∃ m, file.message? path = some m ∧ m.isMapEntry = false := by
  simp only [beanPaths, List.mem_filter, Descriptor.File.mem_messagePaths, Option.any_eq_true,
    Bool.not_eq_true']
  exact and_iff_right_of_imp fun ⟨m, hm, _⟩ => ⟨m, hm⟩

/-! ### Resolution puts them there -/

variable {request : Descriptor.Request} {annotations : Annotated.Request} {s : SourceFile}
  {registry : Registry} {all : List Message}

/-- What is annotated to a declared message, as the annotations have it. -/
theorem required_iff {file : Descriptor.File} {path : IndexPath} {d : DeclaredMessage}
    (hn : (annotations.files.map (·.name?)).Nodup)
    (hd : StandsAt file (annotations.file? file.name) path d) (j : Nat) :
    ((d.annotated.elim [] (·.fields))[j]?).any (·.isRequired) = true ↔
      Required annotations file.name path j := by
  rw [hd.annotated, elim_nil_getElem?, Option.any_eq_true]
  simp only [Option.bind_eq_some_iff, file?_eq_some_iff hn, Annotated.Field.isRequired,
    Option.any_eq_true, List.contains_iff_mem]
  constructor
  · rintro ⟨f, ⟨m, ⟨af, ⟨haf, hname⟩, hm⟩, hf⟩, o, ho, hreq⟩
    exact ⟨af, haf, hname, m, f, o, hm, hf, ho, hreq⟩
  · rintro ⟨af, haf, hname, m, f, o, hm, hf, ho, hreq⟩
    exact ⟨f, ⟨m, ⟨af, ⟨haf, hname⟩, hm⟩, hf⟩, o, ho, hreq⟩

theorem ruled_iff (hn : (annotations.files.map (·.name?)).Nodup)
    (hs : s.annotated = annotations.file? s.descriptor.name) (index i : Nat) (rule : Http.Rule) :
    ((serviceAnnotations s index)[i]?).bind (·.rule) = some rule ↔
      Ruled annotations s.descriptor.name index i rule := by
  rw [serviceAnnotations, elim_nil_getElem?, elim_nil_getElem?, hs]
  simp only [Option.bind_eq_some_iff, file?_eq_some_iff hn, Annotated.Method.rule, Ruled,
    Annotated.File.method?]
  constructor
  · rintro ⟨m, ⟨service, ⟨af, ⟨haf, hname⟩, hservice⟩, hm⟩, o, ho, hrule⟩
    exact ⟨af, haf, hname, m, o, ⟨service, hservice, hm⟩, ho, hrule⟩
  · rintro ⟨af, haf, hname, m, o, ⟨service, hservice, hm⟩, ho, hrule⟩
    exact ⟨m, ⟨service, ⟨af, ⟨haf, hname⟩, hservice⟩, hm⟩, o, ho, hrule⟩

theorem messagePlaced_of_contractMessage {path : IndexPath} {d : DeclaredMessage} {m : Message}
    (hn : (annotations.files.map (·.name?)).Nodup)
    (hd : StandsAt s.descriptor (annotations.file? s.descriptor.name) path d)
    (h : (contractMessage registry s d).result = .ok m) :
    MessagePlaced annotations s.descriptor path m := by
  obtain ⟨fields, hfields, rfl⟩ := contractMessage_eq_ok_iff.mp h
  have hplaced : ByIndex (FieldPlaced annotations s.descriptor path) d.descriptor.fields fields := by
    refine hfields.imp ?_
    intro j f field hf
    obtain ⟨kind, cardinality, -, -, rfl⟩ := contractField_eq_ok_iff.mp hf
    have hcomment : CommentAt s.descriptor.locations (placeOf path ++ [2, Int32.ofNat j])
        (s.comment (d.path.field j)) := by
      rw [← hd.place]
      exact commentAt_comment s (d.path.field j)
    exact ⟨rfl, required_iff hn hd j, hcomment⟩
  have hcomment : CommentAt s.descriptor.locations (placeOf path) (s.comment d.path) := by
    rw [← hd.place]
    exact commentAt_comment s d.path
  exact ⟨⟨d.descriptor, hd.descriptor, rfl, hplaced⟩, fun c hc => mem_of_mem_contractChoices hc,
    hcomment⟩

theorem messagesPlaced_of_contractMessages {ms : List Message}
    (hn : (annotations.files.map (·.name?)).Nodup)
    (hs : s.annotated = annotations.file? s.descriptor.name)
    (h : (s.contractMessages registry).result = .ok ms) :
    List.Forall₂ (MessagePlaced annotations s.descriptor) (beanPaths s.descriptor) ms := by
  rw [contractMessages_eq_ok_iff, SourceFile.declared, hs] at h
  have hbeans : List.Forall₂ (StandsAt s.descriptor (annotations.file? s.descriptor.name))
      (beanPaths s.descriptor) ((declaredMessages s.descriptor
        (annotations.file? s.descriptor.name)).filter (!·.descriptor.isMapEntry)) :=
    List.rel_filter (fun path d hd => by simp [hd.descriptor])
      (forall₂_declaredMessages s.descriptor (annotations.file? s.descriptor.name))
  refine (forall₂_comp hbeans h).imp ?_
  intro path m hpath
  obtain ⟨d, hd, hm⟩ := hpath
  exact messagePlaced_of_contractMessage hn hd hm

theorem enumerationPlaced_contractEnumeration (scope : String) (place : Path)
    (e : Descriptor.Enumeration) :
    EnumerationPlaced s.descriptor place e (contractEnumeration s scope place e) := by
  have hvalues : ByIndex (fun v name value => value.name = name ∧
      CommentAt s.descriptor.locations (place ++ [2, Int32.ofNat v]) value.comment) e.values
        (contractEnumeration s scope place e).values := by
    apply byIndex_mapIdx
    intro v name
    exact ⟨rfl, commentAt_comment s (place.enumValue v)⟩
  exact ⟨rfl, hvalues, commentAt_comment s place⟩

theorem enumerationsPlaced_contractEnumerations :
    EnumerationsPlaced s.descriptor s.contractEnumerations := by
  refine ⟨_, _, congrArg (_ ++ ·) List.flatMap_def, ?_, ?_⟩
  · apply byIndex_mapIdx
    intro i e
    exact enumerationPlaced_contractEnumeration s.descriptor.package (.enumeration i) e
  · rw [List.forall₂_map_right_iff]
    refine (forall₂_declaredMessages s.descriptor s.annotated).imp ?_
    intro path d hd
    refine ⟨d.descriptor, hd.descriptor, ?_⟩
    rw [← hd.place]
    apply byIndex_mapIdx
    intro i e
    exact enumerationPlaced_contractEnumeration d.fullName (d.path.nestedEnumeration i) e

theorem methodPlaced_of_contractMethod {index i : Nat} {scope : String} {m : Descriptor.Method}
    {method : Method} (hn : (annotations.files.map (·.name?)).Nodup)
    (hs : s.annotated = annotations.file? s.descriptor.name)
    (hall : ∀ m ∈ all, MessageOfRequest request annotations m)
    (h : contractMethod all s scope ((Path.service index).method i)
      (serviceAnnotations s index)[i]? m = .ok method) :
    MethodPlaced request annotations s.descriptor index i m method := by
  obtain ⟨input, output, hi, ho, rfl⟩ := contractMethod_eq_ok_iff.mp h
  have hinput : MessageOfRequest request annotations input := hall input (messageOf_eq_ok hi).1
  have houtput : MessageOfRequest request annotations output := hall output (messageOf_eq_ok ho).1
  have hcomment := commentAt_comment s ((Path.service index).method i)
  exact ⟨rfl, hinput, houtput, ruled_iff hn hs index i, hcomment⟩

theorem servicePlaced_of_contractService {index : Nat} {descriptor : Descriptor.Service}
    {service : Service} (hn : (annotations.files.map (·.name?)).Nodup)
    (hs : s.annotated = annotations.file? s.descriptor.name)
    (hall : ∀ m ∈ all, MessageOfRequest request annotations m)
    (h : contractService all s index descriptor = .ok service) :
    ServicePlaced request annotations s.descriptor index descriptor service := by
  obtain ⟨methods, hm, rfl⟩ := contractService_eq_ok_iff.mp h
  have hmethods : ByIndex (MethodPlaced request annotations s.descriptor index) descriptor.methods
      methods := by
    refine hm.imp ?_
    intro i m method hmethod
    exact methodPlaced_of_contractMethod hn hs hall hmethod
  exact ⟨rfl, hmethods, commentAt_comment s (.service index)⟩

theorem filePlaced_of_contractFile {messages : List Message} {file : File}
    (hn : (annotations.files.map (·.name?)).Nodup)
    (hs : s.annotated = annotations.file? s.descriptor.name)
    (hall : ∀ m ∈ all, MessageOfRequest request annotations m)
    (hm : (s.contractMessages registry).result = .ok messages)
    (h : contractFile all s messages = .ok file) :
    FilePlaced request annotations s.descriptor file := by
  obtain ⟨services, hservices, rfl⟩ := contractFile_eq_ok_iff.mp h
  have hmessages := messagesPlaced_of_contractMessages hn hs hm
  have hplaced : ByIndex (ServicePlaced request annotations s.descriptor) s.descriptor.services
      services := by
    refine (contractServices_eq_ok_iff.mp hservices).imp ?_
    intro i descriptor service hservice
    exact servicePlaced_of_contractService hn hs hall hservice
  exact ⟨rfl, hmessages, enumerationsPlaced_contractEnumerations, hplaced⟩

/-- **Everything stands at its place.** Where no two files are annotated under one name, every
element of the contract of a request comes from one place, and has the requirement, the rule and
the comment that the request has for that place. -/
theorem filesPlaced_of_contractFiles {options : Options} {files : List File}
    (hn : (annotations.files.map (·.name?)).Nodup)
    (h : (contractFiles options request annotations).result = .ok files) :
    List.Forall₂ (FilePlaced request annotations)
      (request.files.filter fun d => request.listed.contains d.name) files := by
  obtain ⟨all, hall, hfiles⟩ := forall₂_of_contractFiles h
  have hplaced : ∀ m ∈ all, MessageOfRequest request annotations m := by
    intro m hm
    obtain ⟨d, hd, messages, hms, hmem⟩ := hall m hm
    have hmessages := messagesPlaced_of_contractMessages hn rfl hms
    obtain ⟨path, -, hpath⟩ := exists_left_of_forall₂ hmessages m hmem
    exact ⟨d, hd, path, hpath⟩
  refine hfiles.imp ?_
  intro d file hfile
  obtain ⟨messages, hms, hok⟩ := hfile
  exact filePlaced_of_contractFile hn rfl hplaced hms hok

/-- A file whose second nested message, behind a map entry, has a field with a comment, and which
has a service. -/
def cornerRequest : Descriptor.Request where
  listed := ["shape.proto"]
  files := [{
    name? := some "shape.proto"
    messages := [{
      name := "Shape"
      nested := [{ name := "TagsEntry", isMapEntry := true },
        { name := "Corner", fields := [{ name := "x", type := some 1 }] }] }]
    services := [{
      name := "Shapes"
      methods := [{ name := "Move", input := "Shape.Corner", output := "Shape" }] }]
    locations := [⟨[4, 0, 3, 1, 2, 0], "* across "⟩, ⟨[4, 0, 3, 0], "tags"⟩] }]

/-- The field is required, and the method has a rule. -/
def cornerAnnotations : Annotated.Request where
  files := [{
    name? := some "shape.proto"
    messages := [{ nested := [{}, { fields := [⟨some ⟨[2]⟩⟩] }] }]
    services := [{ methods := [⟨some ⟨some { pattern := some ⟨.post, "/corners"⟩ }⟩⟩] }] }]

/-- The field has the comment of its place, without the star and the blanks around it. -/
theorem filesPlaced_cornerRequest : ∃ files,
    (contractFiles {} cornerRequest cornerAnnotations).result = .ok files ∧
    files.map (fun file => file.messages.map fun m => m.fields.map (·.comment)) =
      [[[], ["across"]]] ∧
    List.Forall₂ (FilePlaced cornerRequest cornerAnnotations)
      (cornerRequest.files.filter fun d => cornerRequest.listed.contains d.name) files := by
  have hcomments : (contractFiles {} cornerRequest cornerAnnotations).result.toOption.map
      (fun files => files.map fun file => file.messages.map fun m => m.fields.map (·.comment)) =
        some [[[], ["across"]]] := by
    decide +kernel
  obtain ⟨files, h⟩ : ∃ files, (contractFiles {} cornerRequest cornerAnnotations).result = .ok files :=
    exists_ok_of_isOk (by decide +kernel)
  rw [h] at hcomments
  exact ⟨files, h, Option.some.inj hcomments, filesPlaced_of_contractFiles (by decide) h⟩

end RestScaffold.Contract
