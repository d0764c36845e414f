import RestScaffold.Generator
import RestScaffold.Proofs.Sequencing

/-! # Files that are not listed

Of a file that is not listed a run sees its outline only: which messages and enumerations there are,
with the fields of the messages and what is annotated to them.

* `Descriptor.Request.outlined`, `Annotated.Request.outlined`: a request with the files that are not
  listed in outline, and its annotations;
* `contractMessage_outline`: a message of an outline is the outline of the message;
* `contractFiles_outlined`: the contract of a request is, in outline, that of its outline: methods
  may take messages of any file, and these are all that differs;
* `artifactsOf_outline`: nothing that the outline of a message leaves out gets into the artifacts of
  a service that takes it;
* `generate_eq_of_sameOutlines`: requests of one outline have one run. -/

namespace RestScaffold

/-! ### Outlines of requests -/

namespace Descriptor

/-- An enumeration without its values. -/
def Enumeration.outline (e : Enumeration) : Enumeration :=
  { e with values := [] }

mutual

/-- A message without its choices, and without the values of the enumerations in it. -/
def Message.outline : Message → Message
  | m@{ nested, .. } =>
    { m with
      nested := Message.outlineAll nested
      enumerations := m.enumerations.map Enumeration.outline
      choices := [] }

/-- The outlines of the messages of a list. -/
def Message.outlineAll : List Message → List Message
  | [] => []
  | m :: ms => m.outline :: Message.outlineAll ms

end

/-- A file without its services and comments, and with its types in outline. -/
def File.outline (f : File) : File :=
  { f with
    messages := Message.outlineAll f.messages
    enumerations := f.enumerations.map Enumeration.outline
    services := []
    locations := [] }

/-- The request with the files that are not listed in outline. -/
def Request.outlined (r : Request) : Request :=
  { r with files := r.files.map fun d => if r.listed.contains d.name then d else d.outline }

end Descriptor

namespace Annotated

/-- The annotations of a file without those of its services. -/
def File.outline (f : File) : File :=
  { f with services := [] }

/-- The annotations of a request with those of the files that are not listed in outline. -/
def Request.outlined (listed : List String) (a : Request) : Request :=
  { a with files := a.files.map fun f => if f.name?.any listed.contains then f else f.outline }

theorem Request.file?_outlined (listed : List String) (a : Request) (name : String) :
    (a.outlined listed).file? name =
      (a.file? name).map fun f => if listed.contains name then f else f.outline := by
  have hkeeps : ∀ f : File,
      (if f.name?.any listed.contains then f else f.outline).name? = f.name? := by
    intro f
    split <;> rfl
  have hnamed : ∀ f ∈ a.files.filter (·.name? = some name),
      (if f.name?.any listed.contains then f else f.outline) =
        if listed.contains name then f else f.outline := by
    intro f hf
    have hname : f.name? = some name := of_decide_eq_true (List.mem_filter.mp hf).2
    rw [hname]
    rfl
  unfold Request.file? Request.outlined
  rw [List.filter_map, ← List.getLast?_map, ← List.map_congr_left hnamed]
  simp only [Function.comp_def, hkeeps]

end Annotated

namespace Contract

/-! ### Outlines of contracts -/

/-- A field without its comment. -/
def Field.outline (f : Field) : Field :=
  { f with comment := "" }

/-- A message without comments and choices. -/
def Message.outline (m : Message) : Message :=
  { m with comment := "", fields := m.fields.map Field.outline, choices := [] }

/-- A method with the messages that it takes and gives in outline. -/
def Method.outline (m : Method) : Method :=
  { m with input := m.input.outline, output := m.output.outline }

/-- A service with its methods in outline. -/
def Service.outline (s : Service) : Service :=
  { s with methods := s.methods.map Method.outline }

/-- A file with its services in outline. Its own messages are not. -/
def File.outline (f : File) : File :=
  { f with services := f.services.map Service.outline }

/-- A declared message in outline. -/
def DeclaredMessage.outline (d : DeclaredMessage) : DeclaredMessage :=
  { d with descriptor := d.descriptor.outline }

/-- A file in outline. -/
def SourceFile.outline (s : SourceFile) : SourceFile :=
  { s with descriptor := s.descriptor.outline, annotated := s.annotated.map Annotated.File.outline }

/-- A file in outline, unless it is listed. -/
def SourceFile.outlined (s : SourceFile) : SourceFile :=
  if s.isListed then s else s.outline

/-! ### Declarations -/

mutual

theorem declaredIn_outline : ∀ (scope : String) (path : Path) (annotated : Option Annotated.Message)
    (m : Descriptor.Message), declaredIn scope path annotated m.outline =
      (declaredIn scope path annotated m).map DeclaredMessage.outline
  | scope, path, annotated, m@{ nested, .. } => by
      rw [Descriptor.Message.outline, declaredIn, declaredIn, List.map_cons,
        ← declaredInAll_outline]
      rfl

theorem declaredInAll_outline : ∀ (scope : String) (place : Nat → Path)
    (annotations : List Annotated.Message) (index : Nat) (ms : List Descriptor.Message),
      declaredInAll scope place annotations index (Descriptor.Message.outlineAll ms) =
        (declaredInAll scope place annotations index ms).map DeclaredMessage.outline
  | scope, place, annotations, index, [] => rfl
  | scope, place, annotations, index, m :: ms => by
      rw [Descriptor.Message.outlineAll, declaredInAll, declaredInAll, List.map_append,
        declaredIn_outline, declaredInAll_outline]

end

mutual

theorem declarationsIn_outline : ∀ (scope package : String) (m : Descriptor.Message),
    declarationsIn scope package m.outline = declarationsIn scope package m
  | scope, package, m@{ nested, .. } => by
      rw [Descriptor.Message.outline, declarationsIn, declarationsIn, declarationsInAll_outline,
        List.map_map]
      rfl

theorem declarationsInAll_outline : ∀ (scope package : String) (ms : List Descriptor.Message),
    declarationsInAll scope package (Descriptor.Message.outlineAll ms) =
      declarationsInAll scope package ms
  | scope, package, [] => rfl
  | scope, package, m :: ms => by
      rw [Descriptor.Message.outlineAll, declarationsInAll, declarationsInAll,
        declarationsIn_outline, declarationsInAll_outline]

end

theorem declarations_outlined (s : SourceFile) : s.outlined.declarations = s.declarations := by
  unfold SourceFile.outlined
  split
  · rfl
  · unfold SourceFile.declarations SourceFile.outline Descriptor.File.outline
    rw [declarationsInAll_outline, List.map_map]
    rfl

/-! ### Messages -/

theorem declared_outline (s : SourceFile) :
    s.outline.declared = s.declared.map DeclaredMessage.outline := by
  have hmessages : s.outline.annotated.elim [] (·.messages) =
      s.annotated.elim [] (·.messages) := by
    unfold SourceFile.outline
    cases s.annotated <;> rfl
  unfold SourceFile.declared declaredMessages
  rw [hmessages]
  exact declaredInAll_outline ..

theorem comment_outline (s : SourceFile) (path : Path) : s.outline.comment path = "" :=
  rfl

theorem descriptor_outline (d : DeclaredMessage) :
    d.outline.descriptor.name = d.descriptor.name ∧
      d.outline.descriptor.fields = d.descriptor.fields ∧
      d.outline.descriptor.isMapEntry = d.descriptor.isMapEntry ∧
      d.outline.descriptor.choices = [] := by
  unfold DeclaredMessage.outline
  cases d.descriptor
  exact ⟨rfl, rfl, rfl, rfl⟩

section

variable (registry : Registry) (s : SourceFile)

theorem contractField_outline (d : DeclaredMessage) (index : Nat) (f : Descriptor.Field) :
    contractField registry s.outline d.outline index f =
      Field.outline <$> contractField registry s d index f := by
  simp only [contractField, comment_outline, map_bind, map_pure]
  rfl

/-- A message is the same but for its comments and choices. -/
theorem contractMessage_outline (d : DeclaredMessage) :
    contractMessage registry s.outline d.outline =
      Message.outline <$> contractMessage registry s d := by
  obtain ⟨hname, hfields, -, hchoices⟩ := descriptor_outline d
  have hnone : ∀ fields, contractChoices d.outline.descriptor fields = [] := by
    intro fields
    unfold contractChoices
    rw [hchoices]
    rfl
  have hcontract : (d.outline.descriptor.fields.zipIdx.mapM fun p =>
      contractField registry s.outline d.outline p.2 p.1) =
      List.map Field.outline <$> d.descriptor.fields.zipIdx.mapM fun p =>
        contractField registry s d p.2 p.1 := by
    rw [hfields, map_mapM]
    simp only [contractField_outline]
  unfold contractMessage
  rw [hcontract]
  simp only [map_bind, bind_map_left, map_pure, hname, hnone]
  rfl

theorem contractMessages_outline : s.outline.contractMessages registry =
    List.map Message.outline <$> s.contractMessages registry := by
  have hentry : ∀ d ∈ s.declared,
      ((fun d : DeclaredMessage => !d.descriptor.isMapEntry) ∘ DeclaredMessage.outline) d =
        !d.descriptor.isMapEntry := by
    intro d _
    exact congrArg not (descriptor_outline d).2.2.1
  unfold SourceFile.contractMessages
  rw [declared_outline, List.filter_map, List.filter_congr hentry, List.mapM_map, map_mapM]
  simp only [Function.comp_def, contractMessage_outline]

/-- A file with its messages, both in outline unless it is listed. -/
def outlinedPair (p : SourceFile × List Message) : SourceFile × List Message :=
  (p.1.outlined, if p.1.isListed then p.2 else p.2.map Message.outline)

theorem resolveMessages_outlined :
    resolveMessages registry s.outlined = outlinedPair <$> resolveMessages registry s := by
  have hmark : s.outline.isListed = s.isListed := rfl
  have hname : s.outline.descriptor.name = s.descriptor.name := rfl
  unfold resolveMessages SourceFile.outlined outlinedPair SourceFile.outlined
  cases hl : s.isListed with
  | true => simp [hl]
  | false => simp [hl, hmark, hname, contractMessages_outline]

end

/-! ### Services -/

theorem messageOf_outline (all : List Message) (referrer typeName : String) :
    messageOf (all.map Message.outline) referrer typeName =
      Message.outline <$> messageOf all referrer typeName := by
  have hname : ((fun m : Message => decide (m.fullName = referredName typeName)) ∘
      Message.outline) = fun m => decide (m.fullName = referredName typeName) := rfl
  unfold messageOf
  rw [List.filter_map, hname, List.getLast?_map]
  cases (all.filter fun m => m.fullName = referredName typeName).getLast? <;> rfl

section

variable (all : List Message) (s : SourceFile)

theorem contractMethod_outline (scope : String) (path : Path) (annotated : Option Annotated.Method)
    (m : Descriptor.Method) : contractMethod (all.map Message.outline) s scope path annotated m =
      Method.outline <$> contractMethod all s scope path annotated m := by
  simp only [contractMethod, messageOf_outline, map_bind, bind_map_left, map_pure]
  rfl

theorem contractService_outline (index : Nat) (service : Descriptor.Service) :
    contractService (all.map Message.outline) s index service =
      Service.outline <$> contractService all s index service := by
  simp only [contractService, contractMethod_outline, ← map_mapM, map_bind, bind_map_left, map_pure]
  rfl

/-- The methods of a file find all messages in outline. -/
theorem contractFile_outline (messages : List Message) :
    contractFile (all.map Message.outline) s messages =
      File.outline <$> contractFile all s messages := by
  simp only [contractFile, SourceFile.contractServices, contractService_outline, ← map_mapM,
    map_bind, bind_map_left, map_pure]
  rfl

end

/-! ### Contracts -/

theorem isListed_outlined (s : SourceFile) : s.outlined.isListed = s.isListed := by
  unfold SourceFile.outlined
  split <;> rfl

theorem outline_outline (m : Message) : m.outline.outline = m.outline := by
  simp only [Message.outline, List.map_map]
  rfl

theorem filter_outlinedPair (resolved : List (SourceFile × List Message)) :
    (resolved.map outlinedPair).filter (·.1.isListed) = resolved.filter (·.1.isListed) := by
  have hlisted : ((fun p : SourceFile × List Message => p.1.isListed) ∘ outlinedPair) =
      fun p => p.1.isListed :=
    funext fun p => isListed_outlined p.1
  have hsame : ∀ p ∈ resolved.filter (·.1.isListed), outlinedPair p = p := by
    intro p hp
    obtain ⟨-, hl⟩ := List.mem_filter.mp hp
    simp only [outlinedPair, SourceFile.outlined, if_pos hl]
  rw [List.filter_map, hlisted, List.map_congr_left hsame, List.map_id']

theorem outline_outlinedPair (resolved : List (SourceFile × List Message)) :
    ((resolved.map outlinedPair).flatMap (·.2)).map Message.outline =
      (resolved.flatMap (·.2)).map Message.outline := by
  rw [List.flatMap_map, List.map_flatMap, List.map_flatMap]
  congr 1
  funext p
  unfold outlinedPair
  split
  · rfl
  · rw [List.map_map]
    exact List.map_congr_left fun m _ => outline_outline m

section

variable (options : Options) (r : Descriptor.Request) (annotations : Annotated.Request)

theorem ofDescriptor_outlined (d : Descriptor.File) :
    SourceFile.ofDescriptor options r.outlined (annotations.outlined r.listed)
        (if r.listed.contains d.name then d else d.outline) =
      (SourceFile.ofDescriptor options r annotations d).outlined := by
  have hname : d.outline.name = d.name := rfl
  cases hl : r.listed.contains d.name with
  | true =>
      simp only [SourceFile.ofDescriptor, SourceFile.outlined, Descriptor.Request.outlined, hl,
        Annotated.Request.file?_outlined, if_true, Option.map_id']
  | false =>
      simp only [SourceFile.ofDescriptor, SourceFile.outlined, Descriptor.Request.outlined, hl,
        hname, Annotated.Request.file?_outlined, Bool.false_eq_true, if_false]
      rfl

theorem sourceFiles_outlined :
    sourceFiles options r.outlined (annotations.outlined r.listed) =
      (sourceFiles options r annotations).map SourceFile.outlined := by
  have hfiles : r.outlined.files =
      r.files.map fun d => if r.listed.contains d.name then d else d.outline := rfl
  unfold sourceFiles
  rw [hfiles, List.map_map, List.map_map]
  exact List.map_congr_left fun d _ => ofDescriptor_outlined options r annotations d

theorem registryOf_outlined :
    Registry.ofFiles (sourceFiles options r.outlined (annotations.outlined r.listed)) =
      Registry.ofFiles (sourceFiles options r annotations) := by
  unfold Registry.ofFiles
  rw [sourceFiles_outlined, List.flatMap_map]
  simp only [declarations_outlined]

theorem contractFiles_outlined :
    List.map File.outline <$>
        contractFiles options r.outlined (annotations.outlined r.listed) =
      List.map File.outline <$> contractFiles options r annotations := by
  unfold contractFiles
  simp only [registryOf_outlined]
  rw [sourceFiles_outlined, List.mapM_map]
  simp only [Function.comp_def, resolveMessages_outlined, ← map_mapM]
  simp only [map_bind, bind_map_left, filter_outlinedPair]
  congr 1
  funext resolved
  simp only [Run.map_ofExcept, map_mapM, ← contractFile_outline, outline_outlinedPair]

end

end Contract

/-! ### Artifacts -/

namespace Target

open Contract (File Message Method Service)

theorem messageImports_outline (package : String) (m : Message) :
    messageImports package m.outline = messageImports package m := by
  unfold messageImports Message.outline
  rw [List.flatMap_map]
  rfl

/-- Types, names and kinds of fields do not depend on their comments. -/
theorem field?_outline (m : Message) (name : String) :
    m.outline.field? name = (m.field? name).map Contract.Field.outline := by
  unfold Message.field? Message.outline
  rw [List.find?_map]
  rfl

theorem pathParameters_outline (vars : List PathTemplate.Variable) (m : Message) :
    pathParameters vars m.outline = pathParameters vars m := by
  refine congrArg (vars.mapM ·) (funext fun v => ?_)
  rw [field?_outline]
  cases m.field? v.name <;> rfl

theorem queryParameters_outline (vars : List PathTemplate.Variable) (m : Message)
    (rule : Http.Rule) : queryParameters vars m.outline rule = queryParameters vars m rule := by
  have hfields : m.outline.fields = m.fields.map Contract.Field.outline := rfl
  unfold queryParameters
  rw [hfields, List.filter_map, List.map_map]
  rfl

theorem bodyParameter_outline (m : Message) (rule : Http.Rule) :
    bodyParameter m.outline rule = bodyParameter m rule := by
  have href : m.outline.ref = m.ref := rfl
  have hname : m.outline.name = m.name := rfl
  unfold bodyParameter
  rw [field?_outline, href, hname]
  cases m.field? rule.body <;> rfl

theorem replyOf_outline (m : Message) (rule : Http.Rule) :
    replyOf m.outline rule = replyOf m rule := by
  have href : m.outline.ref = m.ref := rfl
  have hname : m.outline.name = m.name := rfl
  unfold replyOf
  rw [field?_outline, href, hname]
  cases m.field? rule.responseBody <;> rfl

theorem endpoint_outline (m : Method) : Endpoint.ofMethod m.outline = Endpoint.ofMethod m := by
  have hrule : effectiveRule m.outline = effectiveRule m := rfl
  have hinput : m.outline.input = m.input.outline := rfl
  have houtput : m.outline.output = m.output.outline := rfl
  unfold Endpoint.ofMethod
  rw [hrule, hinput, houtput]
  simp only [pathParameters_outline, queryParameters_outline, bodyParameter_outline,
    replyOf_outline]
  rfl

section

variable (options : Options) (file : File)

theorem serviceInterface_outline (s : Service) :
    ServiceInterface.ofService options file.outline s.outline =
      ServiceInterface.ofService options file s := by
  have hmethods : s.outline.methods = s.methods.map Method.outline := rfl
  have hoperations : operationsOf s.outline = operationsOf s := by
    unfold operationsOf
    rw [hmethods, List.map_map]
    rfl
  unfold ServiceInterface.ofService
  rw [hoperations, hmethods, List.flatMap_map]
  rfl

theorem controller_outline (s : Service) :
    Controller.ofService options file.outline s.outline = Controller.ofService options file s := by
  have hmethods : s.outline.methods = s.methods.map Method.outline := rfl
  have himports : controllerImports options file.outline s.outline =
      controllerImports options file s := by
    simp only [controllerImports, hmethods, List.flatMap_map, Method.outline,
      messageImports_outline]
    rfl
  unfold Controller.ofService
  rw [himports, hmethods, List.mapM_map]
  simp only [Function.comp_def, endpoint_outline]
  rfl

/-- The artifacts of a file show nothing that its outline leaves out. -/
theorem artifactsOf_outline : artifactsOf options file.outline = artifactsOf options file := by
  have hservices : file.outline.services = file.services.map Service.outline := rfl
  have hservice : ∀ s, serviceArtifacts options file.outline s.outline =
      serviceArtifacts options file s := by
    intro s
    unfold serviceArtifacts
    rw [serviceInterface_outline, controller_outline]
    rfl
  unfold artifactsOf
  rw [hservices, List.mapM_map]
  simp only [Function.comp_def, hservice]
  rfl

end

end Target

/-! ### Runs -/

/-- Two requests with their annotations that differ only in what outlines leave out: services and
what is annotated to them, values of enumerations, choices and comments, of files that are not
listed. -/
structure SameOutlines (r r' : Descriptor.Request) (annotations annotations' : Annotated.Request) :
    Prop where
  request : r.outlined = r'.outlined
  annotations : annotations.outlined r.listed = annotations'.outlined r'.listed

theorem publishFile_outline (options : Options) (head : String) (done : List Published)
    (file : Contract.File) :
    publishFile options head done file.outline = publishFile options head done file := by
  unfold publishFile
  rw [Target.artifactsOf_outline]
  rfl

/-- What is generated depends on the outline of the contract only. -/
theorem foldlM_publishFile_outline (options : Options) (head : String)
    (files : Run (List Contract.File)) :
    ((List.map Contract.File.outline <$> files) >>= fun files =>
        files.foldlM (publishFile options head) []) =
      files >>= fun files => files.foldlM (publishFile options head) [] := by
  simp only [bind_map_left, List.foldlM_map, publishFile_outline]

theorem generate_outlined (r : Descriptor.Request) (annotations : Annotated.Request) :
    generate r.outlined (annotations.outlined r.listed) = generate r annotations := by
  have hparameter : r.outlined.parameter = r.parameter := rfl
  have hcompiler : r.outlined.compiler = r.compiler := rfl
  unfold generate
  rw [hparameter, hcompiler]
  congr 1
  funext options
  rw [← bind_assoc, ← bind_assoc, ← foldlM_publishFile_outline, Contract.contractFiles_outlined,
    foldlM_publishFile_outline]

/-- **Files that are not listed show their types only.** Requests that differ in nothing but
services and their annotations, enum values, choices and comments of files that are not listed have
the same run: the same files or the same fault, with the same notices. -/
theorem generate_eq_of_sameOutlines {r r' : Descriptor.Request}
    {annotations annotations' : Annotated.Request}
    (h : SameOutlines r r' annotations annotations') :
    generate r annotations = generate r' annotations' := by
  rw [← generate_outlined r annotations, ← generate_outlined r' annotations', h.request,
    h.annotations]

/-- A message with the given values of its enumeration and with the given choices. -/
def guestMessage (diets choices : List String) : Descriptor.Message where
  name := "Guest"
  fields :=
    [{ name := "name", type := some 9 },
     { name := "mail", type := some 9, choiceIndex := some 0 },
     { name := "diet", type := some 14, typeName := ".guests.Guest.Diet" }]
  enumerations := [⟨"Diet", diets⟩]
  choices := choices

/-- The file of the message, with comments and a service of its own. -/
def guestsFile : Descriptor.File where
  name? := some "guests.proto"
  package := "guests"
  messages := [guestMessage ["ANY", "VEGAN"] ["contact"]]
  services := [⟨"Guests", [⟨"Find", ".guests.Guest", ".guests.Nobody"⟩]⟩]
  locations := [⟨[4, 0], " Somebody on a tour. "⟩, ⟨[4, 0, 2, 0], " The full name. "⟩]

/-- The file without the service, with other values, choices and comments. -/
def guestsFileBare : Descriptor.File :=
  { guestsFile with
    messages := [guestMessage ["HALAL"] ["address", "phone"]]
    services := []
    locations := [⟨[4, 0, 2, 1], " Where bills are sent. "⟩] }

/-- A listed file with a service that takes a guest, and the file of the guest. -/
def tourRequest (guests : Descriptor.File) : Descriptor.Request where
  listed := ["tours.proto"]
  files := [guests, {
    name? := some "tours.proto"
    package := "tours"
    messages := [{
      name := "Tour"
      fields := [{ name := "guest", type := some 11, typeName := ".guests.Guest" }] }]
    services := [⟨"Tours", [⟨"Join", ".guests.Guest", ".tours.Tour"⟩]⟩] }]

/-- The annotations of a service with one method. -/
def ruledService (pattern : Http.Pattern) : Annotated.Service :=
  ⟨[⟨some ⟨some { pattern := some pattern }⟩⟩]⟩

/-- A rule for the listed service, and what is annotated to the services of guests. -/
def tourAnnotations (services : List Annotated.Service) : Annotated.Request where
  files :=
    [{ name? := some "guests.proto", services := services },
     { name? := some "tours.proto", services := [ruledService ⟨.get, "/tours/\x7bname\x7d"⟩] }]

/-- The one request has a service that is not listed, of a method that gives no message of the
request, by a verb that no mapping supports. -/
theorem generate_eq_tourRequest :
    SameOutlines (tourRequest guestsFile) (tourRequest guestsFileBare)
      (tourAnnotations [ruledService ⟨.custom "FIND", "/"⟩]) (tourAnnotations []) ∧
    generate (tourRequest guestsFile) (tourAnnotations [ruledService ⟨.custom "FIND", "/"⟩]) =
      generate (tourRequest guestsFileBare) (tourAnnotations []) ∧
    (generate (tourRequest guestsFileBare) (tourAnnotations [])).result.toOption.map List.length =
      some 3 := by
  have hsame : SameOutlines (tourRequest guestsFile) (tourRequest guestsFileBare)
      (tourAnnotations [ruledService ⟨.custom "FIND", "/"⟩]) (tourAnnotations []) := ⟨rfl, rfl⟩
  have hcount : (generate (tourRequest guestsFileBare) (tourAnnotations [])).result.toOption.map
      List.length = some 3 := by
    decide +kernel
  exact ⟨hsame, generate_eq_of_sameOutlines hsame, hcount⟩

end RestScaffold
