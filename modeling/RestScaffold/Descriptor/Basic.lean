/-! # Descriptors

A compiled contract as the compiler hands it over: files of declarations that refer to each
other by name. Only what generation looks at is kept. Where a name was left out it is empty. -/

namespace RestScaffold.Descriptor

/-- The version of the compiler. -/
structure Version where
  major : Int32 := 0
  minor : Int32 := 0
  patch : Int32 := 0
  suffix : String := ""
deriving DecidableEq

/-- A field of a message. -/
structure Field where
  name : String := ""
  number : Int32 := 0
  /-- Optional, required or repeated, as a number. -/
  label : Int32 := 1
  /-- The number of the type, if one is given. -/
  type : Option Int32 := none
  /-- The message or enumeration that the field refers to, as it is written. -/
  typeName : String := ""
  /-- The place of the choice that the field belongs to. -/
  choiceIndex : Option Int32 := none
  /-- The field's choice only records that the field may be absent. -/
  optional : Bool := false
deriving DecidableEq

/-- An enumeration with the names of its values. -/
structure Enumeration where
  name : String := ""
  values : List String := []
deriving DecidableEq

/-- A message. -/
structure Message where
  name : String := ""
  fields : List Field := []
  nested : List Message := []
  enumerations : List Enumeration := []
  /-- The names of the choices. -/
  choices : List String := []
  /-- Made by the compiler for the entries of a map field. -/
  isMapEntry : Bool := false
deriving Inhabited

/-- A method, with the messages that it takes and gives as they are written. -/
structure Method where
  name : String := ""
  input : String := ""
  output : String := ""
deriving DecidableEq

/-- A service. -/
structure Service where
  name : String := ""
  methods : List Method := []
deriving DecidableEq

/-- A comment with the path of the declaration that it precedes. -/
structure Location where
  path : List Int32 := []
  leadingComment : String := ""
deriving DecidableEq

/-- A contract file. -/
structure File where
  name? : Option String := none
  /-- The package of the declarations. -/
  package : String := ""
  messages : List Message := []
  enumerations : List Enumeration := []
  services : List Service := []
  /-- The package that the file asks for in generated sources. -/
  javaPackage : Option String := none
  locations : List Location := []

/-- The name of a file, empty if it has none. -/
def File.name (f : File) : String :=
  f.name?.getD ""

/-- All that the compiler hands over. -/
structure Request where
  /-- The names of the files to generate sources for. -/
  listed : List String := []
  parameter : Option String := none
  compiler : Option Version := none
  files : List File := []

end RestScaffold.Descriptor
