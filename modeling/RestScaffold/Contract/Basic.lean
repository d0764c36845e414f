import RestScaffold.Contract.Kind
import RestScaffold.Http.Rule

/-! # Contracts

An API contract with every reference resolved: files of messages, enumerations and services.
Nested declarations stand beside the ones that enclose them, and each knows the package of the
class that is generated for it. -/

namespace RestScaffold.Contract

/-- A field of a message. -/
structure Field where
  /-- The name in the contract. -/
  name : String
  kind : Kind
  cardinality : Cardinality := .single
  /-- Marked as one that a request must set. -/
  required : Bool := false
  comment : String := ""
deriving DecidableEq

/-- Fields of which at most one is set. -/
structure Choice where
  name : String
  fields : List Field

/-- A message. -/
structure Message where
  name : String := ""
  fullName : String := ""
  /-- The contract file that declares the message. -/
  file : String := ""
  /-- The package of the generated bean. -/
  package : String := ""
  comment : String := ""
  fields : List Field := []
  choices : List Choice := []

/-- A named value of an enumeration. -/
structure EnumValue where
  name : String
  /-- The place among the enumeration's values. -/
  index : Nat
  comment : String := ""
deriving DecidableEq

/-- An enumeration. -/
structure Enumeration where
  name : String := ""
  fullName : String := ""
  /-- The package of the generated class. -/
  package : String := ""
  comment : String := ""
  values : List EnumValue := []

/-- A method of a service. -/
structure Method where
  name : String := ""
  fullName : String := ""
  comment : String := ""
  input : Message := {}
  output : Message := {}
  rule : Option Http.Rule := none

/-- A service. -/
structure Service where
  name : String := ""
  fullName : String := ""
  comment : String := ""
  methods : List Method := []

/-- A file of the contract. -/
structure File where
  name : String := ""
  /-- The base package of everything that is generated for the file. -/
  package : String := ""
  messages : List Message := []
  enumerations : List Enumeration := []
  services : List Service := []

/-- The first field of the given name. -/
def Message.field? (m : Message) (name : String) : Option Field :=
  m.fields.find? (·.name = name)

/-- The reference to a message. -/
def Message.ref (m : Message) : TypeRef :=
  ⟨m.name, m.fullName, m.package⟩

end RestScaffold.Contract
