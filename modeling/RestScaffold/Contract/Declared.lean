import RestScaffold.Annotated.Basic
import RestScaffold.Descriptor.Basic
import RestScaffold.Naming

/-! # Declared messages

The messages of a contract file, nested ones beside those that enclose them.

* `Path`: the place of a declaration, as the field numbers and indices that lead to it;
* `DeclaredMessage`: a message with its full name, its place and its annotations;
* `declaredMessages`: all messages of a file, each before those that are nested in it. -/

namespace RestScaffold.Contract

/-- The place of a declaration: field numbers of the descriptor and indices in turn. -/
abbrev Path := List Int32

namespace Path

/-- The `index`-th declaration of the list in the field `number`, below `path`. -/
def child (path : Path) (number : Int32) (index : Nat) : Path :=
  path ++ [number, Int32.ofNat index]

/-- The place of a message of a file. -/
def message (index : Nat) : Path := child [] 4 index

/-- The place of an enumeration of a file. -/
def enumeration (index : Nat) : Path := child [] 5 index

/-- The place of a service of a file. -/
def service (index : Nat) : Path := child [] 6 index

/-- The place of a field, below its message. -/
def field (path : Path) (index : Nat) : Path := path.child 2 index

/-- The place of a message, below the one that it is nested in. -/
def nestedMessage (path : Path) (index : Nat) : Path := path.child 3 index

/-- The place of an enumeration, below the message that it is nested in. -/
def nestedEnumeration (path : Path) (index : Nat) : Path := path.child 4 index

/-- The place of a value, below its enumeration. -/
def enumValue (path : Path) (index : Nat) : Path := path.child 2 index

/-- The place of a method, below its service. -/
def method (path : Path) (index : Nat) : Path := path.child 2 index

end Path

/-- A message with what its surroundings say about it. -/
structure DeclaredMessage where
  fullName : String
  path : Path
  descriptor : Descriptor.Message
  annotated : Option Annotated.Message

mutual

/-- A message and those nested in it, the enclosing one first. -/
def declaredIn (scope : String) (path : Path) (annotated : Option Annotated.Message) :
    Descriptor.Message → List DeclaredMessage
  | m@{ nested, .. } =>
    let fullName := Naming.qualify scope m.name
    ⟨fullName, path, m, annotated⟩ ::
      declaredInAll fullName path.nestedMessage (annotated.elim [] (·.nested)) 0 nested

/-- The messages of a list and those nested in them. `annotations` belongs to the same list and
`index` is the place of its first message. -/
def declaredInAll (scope : String) (place : Nat → Path) (annotations : List Annotated.Message)
    (index : Nat) : List Descriptor.Message → List DeclaredMessage
  | [] => []
  | m :: ms =>
    declaredIn scope (place index) annotations[index]? m ++
      declaredInAll scope place annotations (index + 1) ms

end

/-- All messages of a file. -/
def declaredMessages (file : Descriptor.File) (annotated : Option Annotated.File) :
    List DeclaredMessage :=
  declaredInAll file.package Path.message (annotated.elim [] (·.messages)) 0 file.messages

end RestScaffold.Contract
