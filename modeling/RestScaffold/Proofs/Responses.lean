import RestScaffold.Plugin
import RestScaffold.Proofs.WireContents
import RestScaffold.Proofs.Writing

/-! # Responses

A process answers an input with a response that its reader gets whole, or refuses it without one.

* `Received`: a response as its reader has it, where every part may be missing;
* `Received.decode`: the response that bytes hold, if they are well formed;
* `Received.decode_encode`: what is sent is received;
* `allOrNothing_run`: what a process leaves behind for any input. -/

namespace RestScaffold

open Wire (Shape Schema IsNumber Fits Sendable)

/-! ### Reading responses -/

namespace Response

/-- The types of messages that a response is made of. -/
inductive WireType where
  | response
  | file
  | codeInfo
  | range
deriving DecidableEq

/-- The fields of every type. -/
def wireSchema : Schema WireType
  | .response => [(1, .text), (2, .number), (15, .message .file)]
  | .file => [(1, .text), (2, .text), (15, .text), (16, .message .codeInfo)]
  | .codeInfo => [(1, .message .range)]
  | .range => [(1, .numbers), (2, .text), (3, .number), (4, .number), (5, .number)]

theorem numbered_wireSchema : Schema.Numbered wireSchema := by
  intro type p hp
  unfold IsNumber
  cases type <;> simp only [wireSchema, List.mem_cons, List.not_mem_nil, or_false] at hp <;>
    rcases hp with rfl | rfl | rfl | rfl | rfl <;> decide

end Response

/-- A file as a reader of responses has it. -/
structure ReceivedFile where
  name? : Option String := none
  /-- Where the content goes in a file that is there already. -/
  insertionPoint? : Option String := none
  content? : Option String := none
  /-- The fields of what is said about the source of the content. -/
  codeInfo? : Option (List Wire.Field) := none
deriving DecidableEq

/-- A response as its reader has it. -/
structure Received where
  error? : Option String := none
  features? : Option Nat := none
  files : List ReceivedFile := []
deriving DecidableEq

namespace Received

/-- Reads a file. -/
def fileOfFields (fields : List Wire.Field) : ReceivedFile where
  name? := Wire.textOf? 1 fields
  insertionPoint? := Wire.textOf? 2 fields
  content? := Wire.textOf? 15 fields
  codeInfo? := Wire.message? 16 fields

/-- Reads a response. -/
def ofFields (fields : List Wire.Field) : Received where
  error? := Wire.textOf? 1 fields
  features? := Wire.number? 2 fields
  files := (Wire.messages 15 fields).map fileOfFields

/-- The response that the bytes hold, if they are well formed. -/
def decode (bytes : List UInt8) : Option Received :=
  (Wire.decodeAs Response.wireSchema .response bytes).map ofFields

/-- A file with name and content, and nothing else. -/
def ofFile (f : OutputFile) : ReceivedFile :=
  { name? := some f.name, content? := some f.content }

/-- A response, with nothing added and nothing missing. -/
def ofResponse (r : Response) : Received :=
  { error? := r.error, features? := some r.features, files := r.files.map ofFile }

end Received

/-! ### The fields of a response -/

/-- The fields of a file. -/
def OutputFile.wireFields (f : OutputFile) : List Wire.Field :=
  [.text 1 f.name, .text 15 f.content]

/-- The fields of a response. -/
def Response.wireFields (r : Response) : List Wire.Field :=
  r.error.toList.map (.text 1) ++ [.int 2 r.features] ++
    r.files.map fun f => .message 15 f.wireFields

theorem write_wireFields_file (f : OutputFile) :
    Wire.write f.wireFields = Response.encodeFile f := by
  simp [Wire.write, OutputFile.wireFields, Response.encodeFile]

theorem write_wireFields (r : Response) : Wire.write r.wireFields = r.encode := by
  have herror : Wire.write (r.error.toList.map (.text 1)) = Response.encodeError r.error := by
    cases r.error <;> simp [Wire.write, Response.encodeError]
  have hfeatures : Wire.write [.int 2 r.features] = Wire.varintField 2 r.features := by
    simp [Wire.write]
  have hfiles : Wire.write (r.files.map fun f => .message 15 f.wireFields) =
      r.files.flatMap fun f => Wire.bytesField 15 (Response.encodeFile f) := by
    simp only [Wire.write, List.flatMap_map, Wire.encode_message, ← write_wireFields_file]
  unfold Response.wireFields Response.encode
  rw [Wire.write_append, Wire.write_append, herror, hfeatures, hfiles]

/-! ### What is sent -/

open Response (wireSchema numbered_wireSchema)

theorem sendable_file (limit : Nat) (f : OutputFile) :
    Sendable wireSchema limit .file f.wireFields := by
  have hname : Sendable wireSchema limit .file ([f.name].map (.text 1)) :=
    Wire.sendable_texts numbered_wireSchema rfl _
  have hcontent : Sendable wireSchema limit .file ([f.content].map (.text 15)) :=
    Wire.sendable_texts numbered_wireSchema rfl _
  exact hname.append hcontent

theorem sendable_response {r : Response} (hn : r.features < 2 ^ 64) (hf : Fits r.wireFields) :
    Sendable wireSchema Wire.nestingLimit .response r.wireFields := by
  have hlevels : Wire.levelsOf (fun _ => 0) r.files ≤ Wire.nestingLimit :=
    Wire.levelsOf_le_iff.mpr fun _ _ => by decide
  apply Sendable.append
  · apply Sendable.append
    · exact Wire.sendable_texts numbered_wireSchema rfl _
    · exact Wire.sendable_number numbered_wireSchema rfl hn
  · exact Wire.sendable_messages numbered_wireSchema rfl hlevels hf.right
      fun f _ limit _ _ _ => sendable_file limit f

/-! ### What is received -/

theorem fileOfFields_wireFields (f : OutputFile) :
    Received.fileOfFields f.wireFields = Received.ofFile f := by
  have hname : Wire.textOf? 1 f.wireFields = some f.name := Wire.textOf?_eq rfl
  have hplace : Wire.textOf? 2 f.wireFields = none := Wire.textOf?_eq rfl
  have hcontent : Wire.textOf? 15 f.wireFields = some f.content := Wire.textOf?_eq rfl
  have hinfo : Wire.message? 16 f.wireFields = none := rfl
  unfold Received.fileOfFields Received.ofFile
  rw [hname, hplace, hcontent, hinfo]

theorem ofFields_wireFields {r : Response} (hf : Fits r.wireFields) :
    Received.ofFields r.wireFields = Received.ofResponse r := by
  have hone : ∀ number, Wire.valuesOf number [.int 2 r.features] =
      if 2 = number then [.varint r.features] else [] :=
    fun number => Wire.valuesOf_ints number 2 [r.features]
  have hvalues : ∀ number, Wire.valuesOf number r.wireFields =
      (if 1 = number then r.error.toList.map fun s => .bytes (Wire.utf8 s) else []) ++
        (if 2 = number then [.varint r.features] else []) ++
        (if 15 = number then r.files.map fun f => .bytes (Wire.write f.wireFields) else []) := by
    intro number
    unfold Response.wireFields
    rw [Wire.valuesOf_append, Wire.valuesOf_append, Wire.valuesOf_texts, hone,
      Wire.valuesOf_messages]
  have herror : Wire.textOf? 1 r.wireFields = r.error :=
    Wire.textOf?_eq (by simpa using hvalues 1)
  have hfeatures : Wire.number? 2 r.wireFields = some r.features :=
    Wire.number?_eq (by simpa using hvalues 2)
  have hfiles : Wire.messages 15 r.wireFields = r.files.map OutputFile.wireFields := by
    apply Wire.messages_eq
    · simpa using hvalues 15
    · intro f hmem
      exact (sendable_file 0 f).parse_write (hf.right.of_mem hmem)
  unfold Received.ofFields Received.ofResponse
  rw [herror, hfeatures, hfiles, List.map_map]
  simp only [Function.comp_def, fileOfFields_wireFields]

/-- **What is sent is received.** Lengths on the wire are numbers of 64 bits. -/
theorem Received.decode_encode {r : Response} (hn : r.features < 2 ^ 64)
    (hf : r.encode.length < 2 ^ 64) : Received.decode r.encode = some (Received.ofResponse r) := by
  rw [← write_wireFields] at hf ⊢
  have hs := sendable_response hn hf
  have hdecode : Wire.decodeAs wireSchema .response (Wire.write r.wireFields) = some r.wireFields :=
    Wire.decodeAs_eq_some_iff.mpr ⟨hs.parse_write hf, hs.accepted⟩
  unfold Received.decode
  rw [hdecode, Option.map_some, ofFields_wireFields hf]

/-! ### Processes -/

open Plugin (Outcome)

/-- What is left behind when a request was read: a response to `run`. -/
structure Answers (run : Run (List OutputFile)) (outcome : Outcome) : Prop where
  exitCode : outcome.exitCode = 0
  /-- The reader of the output gets the response, if a word can say how long the output is. -/
  received : outcome.output.length < 2 ^ 64 →
    Received.decode outcome.output = some (Received.ofResponse (respond run))
  features : (respond run).features = 1
  error_iff : (respond run).error.isSome ↔ ∃ fault, run.result = .error fault
  /-- Of a run that fails there is nothing but its fault, whatever it had made before. -/
  failed : ∀ fault, run.result = .error fault →
    (respond run).error = some fault.message ∧ (respond run).files = []
  succeeded : ∀ files, run.result = .ok files →
    (respond run).error = none ∧ (respond run).files = files

/-- What a process leaves behind for an input. -/
structure AllOrNothing (input : List UInt8) (outcome : Outcome) : Prop where
  /-- It fails without output when the input is no request in one of the two views. -/
  refused_iff : outcome.exitCode = 1 ∧ outcome.output = [] ↔
    Descriptor.Request.decode input = none ∨ Annotated.Request.decode input = none
  answers : ∀ request annotations, Descriptor.Request.decode input = some request →
    Annotated.Request.decode input = some annotations →
      Answers (generate request annotations) outcome

theorem respond_of_ok {run : Run (List OutputFile)} {files : List OutputFile}
    (h : run.result = .ok files) : respond run = { files := files } := by
  unfold respond
  rw [h]

theorem respond_of_error {run : Run (List OutputFile)} {fault : Fault}
    (h : run.result = .error fault) : respond run = { error := some fault.message } := by
  unfold respond
  rw [h]

theorem features_respond (run : Run (List OutputFile)) : (respond run).features = 1 := by
  cases h : run.result with
  | ok files => rw [respond_of_ok h]; rfl
  | error fault => rw [respond_of_error h]; rfl

theorem answers_answered (run : Run (List OutputFile)) :
    Answers run (.answered run.notices (respond run)) := by
  have hfeatures : (respond run).features = 1 := features_respond run
  have hword : (respond run).features < 2 ^ 64 := by
    rw [hfeatures]
    decide
  refine ⟨rfl, fun hf => Received.decode_encode hword hf, hfeatures, ?_, ?_, ?_⟩
  · cases h : run.result with
    | ok files => simp [respond_of_ok h]
    | error fault => simp [respond_of_error h]
  · intro fault h
    rw [respond_of_error h]
    exact ⟨rfl, rfl⟩
  · intro files h
    rw [respond_of_ok h]
    exact ⟨rfl, rfl⟩

/-- **All or nothing.** A process refuses its input without output, or answers it with a response
that is received as it was made: all files of a run that went through, or the fault alone. -/
theorem allOrNothing_run (input : List UInt8) : AllOrNothing input (Plugin.run input) := by
  have hrefused : ∀ view, (Outcome.refused view).exitCode = 1 ∧
      (Outcome.refused view).output = [] :=
    fun view => ⟨rfl, rfl⟩
  have hanswered : ∀ notices response, (Outcome.answered notices response).exitCode ≠ 1 := by
    intro notices response
    exact show (0 : UInt32) ≠ 1 by decide
  unfold Plugin.run Plugin.read
  cases hd : Descriptor.Request.decode input with
  | none => exact ⟨by simp [hd, hrefused], fun _ _ h => absurd (hd.symm.trans h) (by simp)⟩
  | some request =>
      cases ha : Annotated.Request.decode input with
      | none => exact ⟨by simp [ha, hrefused], fun _ _ _ h => absurd (ha.symm.trans h) (by simp)⟩
      | some annotations =>
          refine ⟨by simp [hd, ha, hanswered], fun request' annotations' hd' ha' => ?_⟩
          obtain rfl : request = request' := Option.some.inj (hd.symm.trans hd')
          obtain rfl : annotations = annotations' := Option.some.inj (ha.symm.trans ha')
          exact answers_answered (generate request annotations)

/-- A request with a file that has two messages of one name. -/
def twinBytes : List UInt8 :=
  [10, 7, 97, 46, 112, 114, 111, 116, 111, 122, 19, 10, 7, 97, 46, 112, 114, 111, 116, 111, 34, 3,
    10, 1, 65, 34, 3, 10, 1, 65]

/-- The first message has a bean, and that of the second one would go to its place. -/
theorem allOrNothing_twinBytes : AllOrNothing twinBytes (Plugin.run twinBytes) ∧
    (Plugin.run twinBytes).output.length < 2 ^ 64 ∧
    Received.decode (Plugin.run twinBytes).output =
      some
        { error? := some (Fault.message (.outputClash "dto/A.java" "A" "A"))
          features? := some 1 } := by
  have hlength : (Plugin.run twinBytes).output.length < 2 ^ 64 := by decide +kernel
  have hreceived : Received.decode (Plugin.run twinBytes).output =
      some
        { error? := some (Fault.message (.outputClash "dto/A.java" "A" "A"))
          features? := some 1 } := by
    decide +kernel
  exact ⟨allOrNothing_run twinBytes, hlength, hreceived⟩

end RestScaffold
