import RestScaffold.Naming

/-! # Kinds

The declared type of a field, and how many values it holds.

* `Scalar`, `Kind`: scalars, references to messages and enumerations, and unknown numbers;
* `TypeRef`: what a reference knows about the declaration;
* `Cardinality`: one value, a list, or a map. -/

namespace RestScaffold.Contract

/-- A message or an enumeration that is declared somewhere in the request. -/
structure TypeRef where
  name : String := ""
  /-- The name with package and enclosing declarations. -/
  fullName : String := ""
  /-- The package of the generated class. -/
  package : String := ""
deriving DecidableEq, Repr

/-- The path by which the generated class is imported. -/
def TypeRef.importPath (t : TypeRef) : String :=
  Naming.qualify t.package t.name

/-- The kinds that refer to no declaration. -/
inductive Scalar where
  | double
  | float
  | int64
  | uint64
  | int32
  | fixed64
  | fixed32
  | bool
  | string
  | group
  | bytes
  | uint32
  | sfixed32
  | sfixed64
  | sint32
  | sint64
deriving DecidableEq, Repr

/-- The keyword of a scalar. -/
def Scalar.keyword : Scalar → String
  | .double => "double"
  | .float => "float"
  | .int64 => "int64"
  | .uint64 => "uint64"
  | .int32 => "int32"
  | .fixed64 => "fixed64"
  | .fixed32 => "fixed32"
  | .bool => "bool"
  | .string => "string"
  | .group => "group"
  | .bytes => "bytes"
  | .uint32 => "uint32"
  | .sfixed32 => "sfixed32"
  | .sfixed64 => "sfixed64"
  | .sint32 => "sint32"
  | .sint64 => "sint64"

/-- The declared type of a field. For a map it is the entry message. -/
inductive Kind where
  | scalar (s : Scalar)
  | message (t : TypeRef)
  | enumeration (t : TypeRef)
  /-- A type number that stands for nothing known. -/
  | unknown (number : Int32)
deriving DecidableEq

/-- The kind in the contract's words. -/
def Kind.text : Kind → String
  | .scalar s => s.keyword
  | .message t => "message " ++ t.fullName
  | .enumeration t => "enum " ++ t.fullName
  | .unknown number => toString number.toInt

/-- The declaration that a kind refers to. -/
def Kind.typeRef? : Kind → Option TypeRef
  | .message t => some t
  | .enumeration t => some t
  | _ => none

/-- Does the kind refer to a message? -/
def Kind.isMessage : Kind → Bool
  | .message _ => true
  | _ => false

/-- How many values a field holds. -/
inductive Cardinality where
  | single
  | list
  | map (key value : Kind)
deriving DecidableEq

end RestScaffold.Contract
