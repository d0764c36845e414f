import RestScaffold.Descriptor.Basic
import RestScaffold.Wire.Schema

/-! # Descriptors on the wire

* `wireSchema`: the fields of every message that a request may contain, those that generation
  does not look at included, since a request is refused when any of them is ill formed;
* `Request.decode`: the request that bytes hold, if they are well formed. -/

namespace RestScaffold.Descriptor

open Wire (Shape Schema)

/-- The types of messages that a request is made of. -/
inductive WireType where
  | request
  | version
  | file
  | message
  | range
  | extensionRange
  | field
  | choice
  | enumeration
  | enumValue
  | service
  | method
  | fileOptions
  | messageOptions
  | fieldOptions
  | choiceOptions
  | enumOptions
  | enumValueOptions
  | serviceOptions
  | methodOptions
  | rangeOptions
  | option
  | optionName
  | sourceInfo
  | location
deriving DecidableEq

/-- The fields of every type. -/
def wireSchema : Schema WireType
  | .request =>
    [(1, .text), (2, .text), (3, .message .version), (15, .message .file)]
  | .version =>
    [(1, .number), (2, .number), (3, .number), (4, .text)]
  | .file =>
    [(1, .text), (2, .text), (3, .text), (4, .message .message), (5, .message .enumeration),
     (6, .message .service), (7, .message .field), (8, .message .fileOptions),
     (9, .message .sourceInfo), (10, .numbers), (11, .numbers), (12, .text)]
  | .message =>
    [(1, .text), (2, .message .field), (3, .message .message), (4, .message .enumeration),
     (5, .message .extensionRange), (6, .message .field), (7, .message .messageOptions),
     (8, .message .choice), (9, .message .range), (10, .text)]
  | .range => [(1, .number), (2, .number)]
  | .extensionRange => [(1, .number), (2, .number), (3, .message .rangeOptions)]
  | .field =>
    [(1, .text), (2, .text), (3, .number), (4, .number), (5, .number), (6, .text), (7, .text),
     (8, .message .fieldOptions), (9, .number), (10, .text), (17, .number)]
  | .choice => [(1, .text), (2, .message .choiceOptions)]
  | .enumeration =>
    [(1, .text), (2, .message .enumValue), (3, .message .enumOptions), (4, .message .range),
     (5, .text)]
  | .enumValue => [(1, .text), (2, .number), (3, .message .enumValueOptions)]
  | .service => [(1, .text), (2, .message .method), (3, .message .serviceOptions)]
  | .method =>
    [(1, .text), (2, .text), (3, .text), (4, .message .methodOptions), (5, .number),
     (6, .number)]
  | .fileOptions =>
    [(1, .text), (8, .text), (9, .number), (10, .number), (11, .text), (16, .number),
     (17, .number), (18, .number), (20, .number), (23, .number), (27, .number), (31, .number),
     (36, .text), (37, .text), (39, .text), (40, .text), (41, .text), (42, .number),
     (44, .text), (45, .text), (999, .message .option)]
  | .messageOptions =>
    [(1, .number), (2, .number), (3, .number), (7, .number), (999, .message .option)]
  | .fieldOptions =>
    [(1, .number), (2, .number), (3, .number), (5, .number), (6, .number), (10, .number),
     (999, .message .option)]
  | .choiceOptions => [(999, .message .option)]
  | .enumOptions => [(2, .number), (3, .number), (999, .message .option)]
  | .enumValueOptions => [(1, .number), (999, .message .option)]
  | .serviceOptions => [(33, .number), (999, .message .option)]
  | .methodOptions => [(33, .number), (34, .number), (999, .message .option)]
  | .rangeOptions => [(999, .message .option)]
  | .option =>
    [(2, .message .optionName), (3, .text), (4, .number), (5, .number), (6, .fixed64),
     (7, .bytes), (8, .text)]
  | .optionName => [(1, .text), (2, .number)]
  | .sourceInfo => [(1, .message .location)]
  | .location => [(1, .numbers), (2, .numbers), (3, .text), (4, .text), (6, .text)]

/-! ### Reading

The readers take the fields of a message that was accepted. -/

/-- Reads a compiler version. -/
def Version.ofFields (fields : List Wire.Field) : Version where
  major := (Wire.int? 1 fields).getD 0
  minor := (Wire.int? 2 fields).getD 0
  patch := (Wire.int? 3 fields).getD 0
  suffix := Wire.text 4 fields

/-- Reads a field. -/
def Field.ofFields (fields : List Wire.Field) : Field where
  name := Wire.text 1 fields
  number := (Wire.int? 3 fields).getD 0
  label := (Wire.int? 4 fields).getD 1
  type := Wire.int? 5 fields
  typeName := Wire.text 6 fields
  choiceIndex := Wire.int? 9 fields
  optional := Wire.flag 17 fields

/-- Reads an enumeration. -/
def Enumeration.ofFields (fields : List Wire.Field) : Enumeration where
  name := Wire.text 1 fields
  values := (Wire.messages 2 fields).map (Wire.text 1)

/-- Is the mark of a map entry set in a message's options? -/
def marksMapEntry (options : Option (List Wire.Field)) : Bool :=
  options.any (Wire.flag 7)

/-- Reads a message; `limit` levels of messages may follow below it. -/
def Message.ofFields : Nat → List Wire.Field → Message
  | limit, fields => {
    name := Wire.text 1 fields
    fields := (Wire.messages 2 fields).map .ofFields
    nested :=
      match limit with
      | 0 => []
      | limit + 1 => (Wire.messages 3 fields).map (Message.ofFields limit)
    enumerations := (Wire.messages 4 fields).map .ofFields
    choices := (Wire.messages 8 fields).map (Wire.text 1)
    isMapEntry := marksMapEntry (Wire.message? 7 fields) }

/-- Reads a method. -/
def Method.ofFields (fields : List Wire.Field) : Method where
  name := Wire.text 1 fields
  input := Wire.text 2 fields
  output := Wire.text 3 fields

/-- Reads a service. -/
def Service.ofFields (fields : List Wire.Field) : Service where
  name := Wire.text 1 fields
  methods := (Wire.messages 2 fields).map .ofFields

/-- Reads a location. -/
def Location.ofFields (fields : List Wire.Field) : Location where
  path := Wire.ints 1 fields
  leadingComment := Wire.text 3 fields

/-- Reads a file; `limit` levels of messages may follow below its own. -/
def File.ofFields (limit : Nat) (fields : List Wire.Field) : File where
  name? := Wire.textOf? 1 fields
  package := Wire.text 2 fields
  messages := (Wire.messages 4 fields).map (.ofFields limit)
  enumerations := (Wire.messages 5 fields).map .ofFields
  services := (Wire.messages 6 fields).map .ofFields
  javaPackage := (Wire.message? 8 fields).bind (Wire.textOf? 1)
  locations := (Wire.messages 1 ((Wire.message? 9 fields).getD [])).map .ofFields

/-- Reads a request. -/
def Request.ofFields (fields : List Wire.Field) : Request where
  listed := Wire.texts 1 fields
  parameter := Wire.textOf? 2 fields
  compiler := (Wire.message? 3 fields).map .ofFields
  files := (Wire.messages 15 fields).map (.ofFields Wire.nestingLimit)

/-- The request that the bytes hold, if they are well formed. -/
def Request.decode (bytes : List UInt8) : Option Request :=
  (Wire.decodeAs wireSchema .request bytes).map .ofFields

end RestScaffold.Descriptor
