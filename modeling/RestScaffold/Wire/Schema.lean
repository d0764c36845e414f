import RestScaffold.Wire.Field

/-! # Wire schemas

A schema says which fields each type of message has. A decoder that knows a schema refuses a
field of the wrong form, and passes over fields that it does not know.

* `Shape`, `Schema`: the form of a field, and the known fields of every type;
* `accepts`: are the fields of a message well formed, with those of the messages in it? Messages
  and unknown groups may be nested only as deep as a limit allows;
* `numbers`, `texts`, `messages` and the like: what the fields of one number hold. -/

namespace RestScaffold.Wire

/-- The form of a known field; `τ` names the types of messages. -/
inductive Shape (τ : Type) where
  /-- One number. -/
  | number
  /-- A list of numbers, one in a field or packed into bytes. -/
  | numbers
  /-- Eight bytes. -/
  | fixed64
  /-- Text in UTF-8. -/
  | text
  /-- Any bytes. -/
  | bytes
  /-- A message. -/
  | message (type : τ)

/-- The known fields of each type. -/
abbrev Schema (τ : Type) := τ → List (Nat × Shape τ)

/-- The text that bytes hold in UTF-8. -/
def text? (bytes : List UInt8) : Option String :=
  String.fromUTF8? ⟨bytes.toArray⟩

/-- The numbers of a value of the shape `numbers`. -/
def Value.numbers? : Value → Option (List Nat)
  | .varint n => some [n]
  | .bytes bs => Varint.decodeAll bs
  | _ => none

/-- The text of a value of the shape `text`. -/
def Value.text? : Value → Option String
  | .bytes bs => Wire.text? bs
  | _ => none

/-- The fields of a value that is a message. -/
def Value.message? : Value → Option (List Field)
  | .bytes bs => parse bs
  | _ => none

/-! ### Acceptance -/

variable {τ : Type}

/-- Does a field conform to the known ones? `enter` judges the messages one level below and
`limit` counts the levels that are left. -/
def conforms (known : List (Nat × Shape τ)) (limit : Nat) (enter : τ → List Field → Bool)
    (f : Field) : Bool :=
  match known.lookup f.number, f.value with
  | none, v => v.height ≤ limit
  | some .number, .varint _ => true
  | some .numbers, v => v.numbers?.isSome
  | some .fixed64, .fixed64 => true
  | some .text, v => v.text?.isSome
  | some .bytes, .bytes _ => true
  | some (.message type), v => v.message?.any (enter type)
  | _, _ => false

/-- Is a message with these fields well formed, with `limit` levels left below it? -/
def accepts (schema : Schema τ) : Nat → τ → List Field → Bool
  | 0, type, fields => fields.all (conforms (schema type) 0 fun _ _ => false)
  | limit + 1, type, fields =>
    fields.all (conforms (schema type) (limit + 1) (accepts schema limit))

/-- The levels of nesting below the outermost message. -/
def nestingLimit : Nat := 100

/-- The fields of a message of the given type, if the bytes are well formed. -/
def decodeAs (schema : Schema τ) (type : τ) (bytes : List UInt8) : Option (List Field) :=
  (parse bytes).filter (accepts schema nestingLimit type)

/-! ### Contents -/

/-- The values of the fields of one number. -/
def valuesOf (number : Nat) (fields : List Field) : List Value :=
  (fields.filter (·.number = number)).map (·.value)

/-- All numbers of a list. -/
def numbers (number : Nat) (fields : List Field) : List Nat :=
  (valuesOf number fields).flatMap fun v => v.numbers?.getD []

/-- All texts of a list. -/
def texts (number : Nat) (fields : List Field) : List String :=
  (valuesOf number fields).filterMap Value.text?

/-- All messages of a list. -/
def messages (number : Nat) (fields : List Field) : List (List Field) :=
  (valuesOf number fields).filterMap Value.message?

/-- The number in a field; the last occurrence counts. -/
def number? (number : Nat) (fields : List Field) : Option Nat :=
  (numbers number fields).getLast?

/-- The text in a field; the last occurrence counts. -/
def textOf? (number : Nat) (fields : List Field) : Option String :=
  (texts number fields).getLast?

/-- The message in a field; the occurrences are merged by putting their fields in a row. -/
def message? (number : Nat) (fields : List Field) : Option (List Field) :=
  let all := messages number fields
  if all = [] then none else some all.flatten

/-- The text in a field, empty if there is none. -/
def text (number : Nat) (fields : List Field) : String :=
  (textOf? number fields).getD ""

/-- The signed numbers of a list. -/
def ints (number : Nat) (fields : List Field) : List Int32 :=
  (numbers number fields).map int32

/-- The signed number in a field. -/
def int? (number : Nat) (fields : List Field) : Option Int32 :=
  (number? number fields).map int32

/-- The truth value in a field, false if there is none. -/
def flag (number : Nat) (fields : List Field) : Bool :=
  (number? number fields).any (· != 0)

end RestScaffold.Wire
