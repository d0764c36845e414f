import RestScaffold.Contract.Basic

/-! # Java types

The types that generated members have, and the classes that must be imported to write them.

* `JavaType.ofKind`, `JavaType.ofField`: the type of a value, and of a field with its collection;
* `JavaType.text`: the type as it is written, with simple class names;
* `JavaType.imports`: the classes that a source of a given package imports for it. -/

namespace RestScaffold.Target

open Contract (Kind Scalar TypeRef)

/-- The type of a generated member. -/
inductive JavaType where
  /-- A class that needs no import. -/
  | builtin (name : String)
  | byteString
  /-- The class generated for a declaration. -/
  | declared (t : TypeRef)
  | list (element : JavaType)
  | map (key value : JavaType)
deriving DecidableEq

namespace JavaType

/-- The class that holds one scalar. -/
def ofScalar : Scalar → JavaType
  | .int32 | .sint32 | .uint32 | .sfixed32 | .fixed32 => .builtin "Integer"
  | .int64 | .sint64 | .uint64 | .sfixed64 | .fixed64 => .builtin "Long"
  | .float => .builtin "Float"
  | .double => .builtin "Double"
  | .bool => .builtin "Boolean"
  | .string => .builtin "String"
  | .bytes => .byteString
  | .group => .builtin "Object"

/-- The class that holds one value of a kind. An unknown kind stays visible. -/
def ofKind : Kind → JavaType
  | .scalar s => ofScalar s
  | .message t => .declared t
  | .enumeration t => .declared t
  | .unknown number => .builtin ("Kind(" ++ toString number.toInt ++ ")")

/-- The type of a field. A map is typed by its keys and values, never by its entry message. -/
def ofField (f : Contract.Field) : JavaType :=
  match f.cardinality with
  | .single => ofKind f.kind
  | .list => .list (ofKind f.kind)
  | .map key value => .map (ofKind key) (ofKind value)

/-- The type as it is written. -/
def text : JavaType → String
  | .builtin name => name
  | .byteString => "ByteString"
  | .declared t => t.name
  | .list element => "List<" ++ element.text ++ ">"
  | .map key value => "Map<" ++ key.text ++ ", " ++ value.text ++ ">"

/-- The classes that a source of `package` imports to write the type. -/
def imports (package : String) : JavaType → List String
  | .builtin _ => []
  | .byteString => ["com.google.protobuf.ByteString"]
  | .declared t => if t.package = package then [] else [t.importPath]
  | .list element => "java.util.List" :: element.imports package
  | .map key value => "java.util.Map" :: (key.imports package ++ value.imports package)

end JavaType

end RestScaffold.Target
