import RestScaffold.Contract.SourceFile

/-! # Registries

The messages and enumerations of all files of a run, by full name.

* `Declaration`: what a reference to a declaration needs to know;
* `Registry.ofFiles`: everything that the files declare;
* `Registry.find?`: the declaration of a name; a later one hides an earlier one of its name. -/

namespace RestScaffold.Contract

/-- The two fields of a map entry. -/
structure MapEntry where
  key : Descriptor.Field
  value : Descriptor.Field

/-- A declaration that fields may refer to. -/
structure Declaration where
  fullName : String
  name : String
  /-- The package of the generated class. -/
  package : String
  /-- Key and value, if the declaration is a map entry with both. -/
  entry : Option MapEntry := none

/-- The fields numbered one and two of a message that is marked as a map entry. -/
def mapEntry? (m : Descriptor.Message) : Option MapEntry :=
  if m.isMapEntry then
    match m.fields.find? (·.number = 1), m.fields.find? (·.number = 2) with
    | some key, some value => some ⟨key, value⟩
    | _, _ => none
  else none

/-- The declaration of an enumeration. -/
def declarationOfEnumeration (scope package : String) (e : Descriptor.Enumeration) : Declaration :=
  ⟨Naming.qualify scope e.name, e.name, package, none⟩

mutual

/-- What a message declares: nested messages, nested enumerations and, last, itself. -/
def declarationsIn (scope package : String) : Descriptor.Message → List Declaration
  | m@{ nested, .. } =>
    let fullName := Naming.qualify scope m.name
    declarationsInAll fullName package nested ++
      m.enumerations.map (declarationOfEnumeration fullName package) ++
      [⟨fullName, m.name, package, mapEntry? m⟩]

/-- What the messages of a list declare. -/
def declarationsInAll (scope package : String) : List Descriptor.Message → List Declaration
  | [] => []
  | m :: ms => declarationsIn scope package m ++ declarationsInAll scope package ms

end

/-- What a file declares. -/
def SourceFile.declarations (s : SourceFile) : List Declaration :=
  declarationsInAll s.descriptor.package s.beanPackage s.descriptor.messages ++
    s.descriptor.enumerations.map (declarationOfEnumeration s.descriptor.package s.beanPackage)

/-- Declarations in the order in which they were met. -/
structure Registry where
  declarations : List Declaration

/-- Everything that the files declare. -/
def Registry.ofFiles (files : List SourceFile) : Registry :=
  ⟨files.flatMap SourceFile.declarations⟩

/-- The declaration of a full name. -/
def Registry.find? (r : Registry) (fullName : String) : Option Declaration :=
  (r.declarations.filter (·.fullName = fullName)).getLast?

/-- A reference as it is written, without the dots in front. -/
def referredName (typeName : String) : String :=
  String.ofList (typeName.toList.dropWhile (· == '.'))

/-- The declaration that a written reference means. -/
def Registry.resolve? (r : Registry) (typeName : String) : Option Declaration :=
  r.find? (referredName typeName)

end RestScaffold.Contract
