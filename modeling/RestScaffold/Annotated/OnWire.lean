import RestScaffold.Annotated.Basic
import RestScaffold.Wire.Schema

/-! # Annotations on the wire

The annotations of a request are read from the same bytes as its descriptors, by a schema that
knows only the fields on the way to an annotation.

* `wireSchema`: those fields;
* `Request.decode`: the annotations that bytes hold, if they are well formed. -/

namespace RestScaffold.Annotated

open Wire (Shape Schema)

/-- The types of messages on the way to an annotation. -/
inductive WireType where
  | request
  | file
  | message
  | field
  | fieldOptions
  | service
  | method
  | methodOptions
  | rule
  | customPattern
deriving DecidableEq

/-- The number of the field of a field's options that holds the behaviours. -/
def behaviorField : Nat := 1052

/-- The number of the field of a method's options that holds the rule. -/
def ruleField : Nat := 72295728

/-- The fields of every type. -/
def wireSchema : Schema WireType
  | .request => [(15, .message .file)]
  | .file => [(1, .text), (4, .message .message), (6, .message .service)]
  | .message => [(2, .message .field), (3, .message .message)]
  | .field => [(8, .message .fieldOptions)]
  | .fieldOptions => [(behaviorField, .numbers)]
  | .service => [(2, .message .method)]
  | .method => [(4, .message .methodOptions)]
  | .methodOptions => [(ruleField, .message .rule)]
  | .rule =>
    [(1, .text), (2, .text), (3, .text), (4, .text), (5, .text), (6, .text), (7, .text),
     (8, .message .customPattern), (11, .message .rule), (12, .text)]
  | .customPattern => [(1, .text), (2, .text)]

/-! ### Reading

The readers take the fields of a message that was accepted. -/

open Http (Pattern Rule Verb)

/-- The verb whose path a field of a rule holds. -/
def verbOf? : Nat → Option Verb
  | 2 => some .get
  | 3 => some .put
  | 4 => some .post
  | 5 => some .delete
  | 6 => some .patch
  | _ => none

/-- A custom pattern; what its fields leave out is as in the custom pattern before it. -/
def customPattern (before : Option Pattern) (fields : List Wire.Field) : Pattern :=
  match before with
  | some ⟨.custom name, path⟩ =>
    ⟨.custom ((Wire.textOf? 1 fields).getD name), (Wire.textOf? 2 fields).getD path⟩
  | _ => ⟨.custom (Wire.text 1 fields), Wire.text 2 fields⟩

/-- The pattern after one more field of a rule: the last one counts. -/
def patternAfter (before : Option Pattern) (f : Wire.Field) : Option Pattern :=
  if f.number = 8 then
    match f.value.message? with
    | some fields => some (customPattern before fields)
    | none => before
  else
    match verbOf? f.number, f.value.text? with
    | some verb, some path => some ⟨verb, path⟩
    | _, _ => before

/-- Reads a rule; `limit` levels of rules may follow below it. -/
def ruleOfFields : Nat → List Wire.Field → Rule
  | limit, fields => {
    selector := Wire.text 1 fields
    pattern := fields.foldl patternAfter none
    body := Wire.text 7 fields
    responseBody := Wire.text 12 fields
    additionalBindings :=
      match limit with
      | 0 => []
      | limit + 1 => (Wire.messages 11 fields).map (ruleOfFields limit) }

/-- Reads the options of a field. -/
def FieldOptions.ofFields (fields : List Wire.Field) : FieldOptions where
  behaviors := Wire.ints behaviorField fields

/-- Reads a field. -/
def Field.ofFields (fields : List Wire.Field) : Field where
  options := (Wire.message? 8 fields).map .ofFields

/-- Reads a message; `limit` levels of messages may follow below it. -/
def Message.ofFields : Nat → List Wire.Field → Message
  | limit, fields => {
    fields := (Wire.messages 2 fields).map .ofFields
    nested :=
      match limit with
      | 0 => []
      | limit + 1 => (Wire.messages 3 fields).map (Message.ofFields limit) }

/-- Reads the options of a method. -/
def MethodOptions.ofFields (limit : Nat) (fields : List Wire.Field) : MethodOptions where
  rule := (Wire.message? ruleField fields).map (ruleOfFields limit)

/-- Reads a method. -/
def Method.ofFields (limit : Nat) (fields : List Wire.Field) : Method where
  options := (Wire.message? 4 fields).map (.ofFields limit)

/-- Reads a service. -/
def Service.ofFields (limit : Nat) (fields : List Wire.Field) : Service where
  methods := (Wire.messages 2 fields).map (.ofFields limit)

/-- Reads a file. -/
def File.ofFields (limit : Nat) (fields : List Wire.Field) : File where
  name? := Wire.textOf? 1 fields
  messages := (Wire.messages 4 fields).map (.ofFields limit)
  services := (Wire.messages 6 fields).map (.ofFields limit)

/-- Reads the annotations of a request. -/
def Request.ofFields (fields : List Wire.Field) : Request where
  files := (Wire.messages 15 fields).map (.ofFields Wire.nestingLimit)

/-- The annotations that the bytes hold, if they are well formed. -/
def Request.decode (bytes : List UInt8) : Option Request :=
  (Wire.decodeAs wireSchema .request bytes).map .ofFields

end RestScaffold.Annotated
