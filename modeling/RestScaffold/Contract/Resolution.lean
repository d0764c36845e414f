import RestScaffold.Contract.Basic
import RestScaffold.Contract.Registry
import RestScaffold.Run

/-! # Resolution

From descriptors, which refer to each other by name, to a contract in which every reference
knows its declaration.

* `kindOf`, `cardinalityOf`: type and cardinality of a field;
* `SourceFile.contractMessages`, `SourceFile.contractEnumerations`, `SourceFile.contractServices`:
  the declarations of one file;
* `contractFiles`: the listed files of a request. All messages of all files are resolved before
  any service, since a method may take a message of any file. -/

namespace RestScaffold.Contract

/-! ### Fields -/

/-- The scalar of a type number. -/
def scalarOf? (number : Int32) : Option Scalar :=
  [(1, .double), (2, .float), (3, .int64), (4, .uint64), (5, .int32), (6, .fixed64),
   (7, .fixed32), (8, .bool), (9, .string), (10, .group), (12, .bytes), (13, .uint32),
   (15, .sfixed32), (16, .sfixed64), (17, .sint32), (18, .sint64)].lookup number

/-- The type number of messages. -/
def messageType : Int32 := 11

/-- The type number of enumerations. -/
def enumType : Int32 := 14

/-- The label of repeated fields. -/
def repeatedLabel : Int32 := 3

/-- The declaration that a field of `referrer` refers to. -/
def typeRefOf (registry : Registry) (referrer : String) (f : Descriptor.Field) :
    Except Fault TypeRef :=
  match registry.resolve? f.typeName with
  | some e => .ok ⟨e.name, referredName f.typeName, e.package⟩
  | none => .error (.unresolvedType f.typeName referrer)

/-- The kind of a field. A type number that stands for nothing is noticed, a missing one not. -/
def kindOf (registry : Registry) (referrer : String) (f : Descriptor.Field) : Run Kind :=
  match f.type with
  | none => pure (.unknown 0)
  | some number =>
    match scalarOf? number with
    | some s => pure (.scalar s)
    | none =>
      if number = messageType then
        Kind.message <$> Run.ofExcept (typeRefOf registry referrer f)
      else if number = enumType then
        Kind.enumeration <$> Run.ofExcept (typeRefOf registry referrer f)
      else do
        Run.notify (.unrecognizedType f.name referrer number)
        return .unknown number

/-- The cardinality of a field. A repeated field of a map entry's type is a map. -/
def cardinalityOf (registry : Registry) (referrer : String) (f : Descriptor.Field) :
    Run Cardinality :=
  if f.label = repeatedLabel then
    match (registry.resolve? f.typeName).bind (·.entry) with
    | some entry => do
      let key ← kindOf registry referrer entry.key
      let value ← kindOf registry referrer entry.value
      return .map key value
    | none => pure .list
  else pure .single

/-! ### Messages -/

/-- The contract field of the `index`-th field of a message. -/
def contractField (registry : Registry) (s : SourceFile) (d : DeclaredMessage) (index : Nat)
    (f : Descriptor.Field) : Run Field := do
  let kind ← kindOf registry d.fullName f
  let cardinality ← cardinalityOf registry d.fullName f
  return {
    name := f.name
    kind := kind
    cardinality := cardinality
    required := ((d.annotated.elim [] (·.fields))[index]?).any (·.isRequired)
    comment := s.comment (d.path.field index) }

/-- Does a field belong to the `index`-th choice? Choices that only record that a field may be
absent have no members. -/
def inChoice (index : Nat) (f : Descriptor.Field) : Bool :=
  f.choiceIndex = some (Int32.ofNat index) && !f.optional

/-- The choices of a message that have members. `fields` are its fields in the contract. -/
def contractChoices (m : Descriptor.Message) (fields : List Field) : List Choice :=
  let choices := m.choices.mapIdx fun index name =>
    (⟨name, ((m.fields.zip fields).filter fun p => inChoice index p.1).map (·.2)⟩ : Choice)
  choices.filter (·.fields ≠ [])

/-- The contract message of a declared one. -/
def contractMessage (registry : Registry) (s : SourceFile) (d : DeclaredMessage) :
    Run Message := do
  let fields ← d.descriptor.fields.zipIdx.mapM fun (f, index) =>
    contractField registry s d index f
  return {
    name := d.descriptor.name
    fullName := d.fullName
    file := s.descriptor.name
    package := s.beanPackage
    comment := s.comment d.path
    fields := fields
    choices := contractChoices d.descriptor fields }

/-- The messages of a file that beans are made for: map entries are not among them. -/
def SourceFile.contractMessages (registry : Registry) (s : SourceFile) : Run (List Message) :=
  (s.declared.filter (!·.descriptor.isMapEntry)).mapM (contractMessage registry s)

/-! ### Enumerations -/

/-- The contract enumeration of one that is declared at a place. -/
def contractEnumeration (s : SourceFile) (scope : String) (path : Path)
    (e : Descriptor.Enumeration) : Enumeration where
  name := e.name
  fullName := Naming.qualify scope e.name
  package := s.beanPackage
  comment := s.comment path
  values := e.values.mapIdx fun index name => ⟨name, index, s.comment (path.enumValue index)⟩

/-- The enumerations of a file: its own, then those nested in its messages. -/
def SourceFile.contractEnumerations (s : SourceFile) : List Enumeration :=
  s.descriptor.enumerations.mapIdx (fun index e =>
      contractEnumeration s s.descriptor.package (.enumeration index) e) ++
    s.declared.flatMap fun d =>
      d.descriptor.enumerations.mapIdx fun index e =>
        contractEnumeration s d.fullName (d.path.nestedEnumeration index) e

/-! ### Services -/

/-- The message that a method refers to; of several of one name the last counts. -/
def messageOf (all : List Message) (referrer typeName : String) : Except Fault Message :=
  match (all.filter (·.fullName = referredName typeName)).getLast? with
  | some m => .ok m
  | none => .error (.unresolvedType typeName referrer)

/-- The contract method of one that is declared at a place. -/
def contractMethod (all : List Message) (s : SourceFile) (scope : String) (path : Path)
    (annotated : Option Annotated.Method) (m : Descriptor.Method) : Except Fault Method := do
  let fullName := Naming.qualify scope m.name
  let input ← messageOf all fullName m.input
  let output ← messageOf all fullName m.output
  return {
    name := m.name
    fullName := fullName
    comment := s.comment path
    input := input
    output := output
    rule := annotated.bind (·.rule) }

/-- The contract service of the `index`-th service of a file. -/
def contractService (all : List Message) (s : SourceFile) (index : Nat)
    (service : Descriptor.Service) : Except Fault Service := do
  let fullName := Naming.qualify s.descriptor.package service.name
  let path := Path.service index
  let annotations := ((s.annotated.elim [] (·.services))[index]?).elim [] (·.methods)
  let methods ← service.methods.zipIdx.mapM fun (m, i) =>
    contractMethod all s fullName (path.method i) annotations[i]? m
  return {
    name := service.name
    fullName := fullName
    comment := s.comment path
    methods := methods }

/-- The services of a file. -/
def SourceFile.contractServices (all : List Message) (s : SourceFile) :
    Except Fault (List Service) :=
  s.descriptor.services.zipIdx.mapM fun (service, index) => contractService all s index service

/-! ### Files -/

/-- The files of a request with their parts in the run. -/
def sourceFiles (options : Options) (request : Descriptor.Request)
    (annotations : Annotated.Request) : List SourceFile :=
  request.files.map (.ofDescriptor options request annotations)

/-- Resolves the messages of a file, and reports a file that is not listed. -/
def resolveMessages (registry : Registry) (s : SourceFile) :
    Run (SourceFile × List Message) := do
  let messages ← s.contractMessages registry
  if !s.isListed then Run.notify (.skipping s.descriptor.name)
  return (s, messages)

/-- The contract file of a listed file whose messages are resolved. -/
def contractFile (all : List Message) (s : SourceFile) (messages : List Message) :
    Except Fault File := do
  let services ← s.contractServices all
  return {
    name := s.descriptor.name
    package := s.package
    messages := messages
    enumerations := s.contractEnumerations
    services := services }

/-- The listed files of a request as a contract. -/
def contractFiles (options : Options) (request : Descriptor.Request)
    (annotations : Annotated.Request) : Run (List File) := do
  let sources := sourceFiles options request annotations
  let resolved ← sources.mapM (resolveMessages (.ofFiles sources))
  let all := resolved.flatMap (·.2)
  Run.ofExcept <|
    (resolved.filter (·.1.isListed)).mapM fun (s, messages) => contractFile all s messages

end RestScaffold.Contract
