import RestScaffold.Wire.Field

/-! # Responses

What the generator answers: the files that it made, or the fault that stopped it.
`Response.encode` writes the fields in the order of their numbers; an error that is absent is left
out, and an empty text is written. -/

namespace RestScaffold

/-- A generated file. -/
structure OutputFile where
  name : String
  content : String
deriving DecidableEq, Repr

/-- The features of contracts that a generator may understand are bits; this one is that fields
may be optional. -/
def optionalFields : Nat := 1

/-- The answer to a request. -/
structure Response where
  /-- Why there are no files. -/
  error : Option String := none
  /-- The features that the generator understands. -/
  features : Nat := optionalFields
  files : List OutputFile := []
deriving DecidableEq, Repr

namespace Response

/-- The bytes of a file. -/
def encodeFile (f : OutputFile) : List UInt8 :=
  Wire.textField 1 f.name ++ Wire.textField 15 f.content

/-- The bytes of an error, if there is one. -/
def encodeError : Option String → List UInt8
  | some message => Wire.textField 1 message
  | none => []

/-- The bytes of a response. -/
def encode (r : Response) : List UInt8 :=
  encodeError r.error ++ Wire.varintField 2 r.features ++
    r.files.flatMap fun f => Wire.bytesField 15 (encodeFile f)

end Response

end RestScaffold
