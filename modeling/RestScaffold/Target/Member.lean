import RestScaffold.Target.Type

/-! # Members

What a generated class shows of a field, a choice or a method.

* `Property`: a private field with its getter and setter;
* `CaseEnum`: the enum of the cases of a choice, with the getter of the current case;
* `Operation`: a method of a service interface. -/

namespace RestScaffold.Target

open Contract (TypeRef)
open Naming (memberName typeName)
open Text (upper upperFirst lowerFirst)

/-- A comment, or a name where there is none. -/
def labelOf (comment name : String) : String :=
  if comment = "" then name else comment

/-- A private field of a bean. -/
structure Property where
  /-- The name of the private field. -/
  name : String
  /-- The name in the contract. -/
  wireName : String
  type : JavaType
  comment : String
  required : Bool
  /-- What messages call the property. -/
  label : String
  /-- The constant that stands for the property in a case enum. -/
  constant : String
  /-- Of an enumeration or a message type. -/
  isReference : Bool
deriving DecidableEq

/-- The property of a contract field. -/
def Property.ofField (f : Contract.Field) : Property where
  name := memberName f.name
  wireName := f.name
  type := .ofField f
  comment := f.comment
  required := f.required
  label := labelOf f.comment (typeName f.name)
  constant := upper f.name
  isReference := f.kind.typeRef?.isSome

/-- The name of the getter. -/
def Property.getter (p : Property) : String :=
  "get" ++ upperFirst p.name

/-- The name of the setter. -/
def Property.setter (p : Property) : String :=
  "set" ++ upperFirst p.name

/-- The enum of the cases of a choice. -/
structure CaseEnum where
  /-- The member name of the choice. -/
  name : String
  /-- The name of the enum. -/
  enumName : String
  /-- The properties of which at most one is set, in order. -/
  properties : List Property
deriving DecidableEq

/-- The case enum of a choice. -/
def CaseEnum.ofChoice (c : Contract.Choice) : CaseEnum where
  name := memberName c.name
  enumName := "Oneof" ++ typeName c.name
  properties := c.fields.map .ofField

/-- The constants of a case enum, one for each property. -/
def CaseEnum.cases (c : CaseEnum) : List String :=
  c.properties.map (·.constant)

/-- The constant for a choice without a value, which follows the others. -/
def CaseEnum.notSet : String := "UNSPECIFIED"

/-- The name of the getter of the current case. -/
def CaseEnum.getter (c : CaseEnum) : String :=
  "get" ++ upperFirst c.name ++ "Case"

/-- A method of a service interface. -/
structure Operation where
  name : String
  /-- The name in the contract, with package and service. -/
  fullName : String
  request : TypeRef
  response : TypeRef
  comment : String
  /-- What messages call the operation. -/
  label : String
deriving DecidableEq

/-- The operation of a contract method: `GetUser` becomes `getUser`. -/
def Operation.ofMethod (m : Contract.Method) : Operation where
  name := lowerFirst (typeName m.name)
  fullName := m.fullName
  request := m.input.ref
  response := m.output.ref
  comment := m.comment
  label := labelOf m.comment (typeName m.name)

end RestScaffold.Target
