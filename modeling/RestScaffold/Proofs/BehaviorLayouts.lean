import RestScaffold.Annotated.OnWire
import RestScaffold.Proofs.WireContents
import RestScaffold.Proofs.WireGrammar

/-! # Layouts of behaviours

However the behaviours of a field are laid out in its bytes, they are read in order.

* `OptionsLaidOut`: behaviours one by one and in packed runs, among other fields of the options;
* `FieldLaidOut`: options in any number of parts, among other fields;
* `Field.decode`, `Field.behaviors`: the field that bytes hold, and its behaviours;
* `laidOut_iff_decode`, `exists_fieldLaidOut`: the bytes of a field are those in which its behaviours
  are laid out, and every list of behaviours has a layout. -/

namespace RestScaffold.Annotated

open Wire (Spelled Varint.AllSpelled)

/-! ### Layouts -/

/-- The behaviours stand in the bytes of a field's options: each in a field of its own or in a
packed run, which may be empty, with other fields in between. Groups of those may be nested in
`levels` levels. -/
inductive OptionsLaidOut (levels : Nat) : List Int32 → List UInt8 → Prop
  | nil : OptionsLaidOut levels [] []
  | single {n : Nat} {behaviors : List Int32} {piece rest : List UInt8}
      (h : Spelled [⟨behaviorField, .varint n⟩] piece)
      (hrest : OptionsLaidOut levels behaviors rest) :
      OptionsLaidOut levels (Wire.int32 n :: behaviors) (piece ++ rest)
  | packed {ns : List Nat} {behaviors : List Int32} {run piece rest : List UInt8}
      (h : Spelled [⟨behaviorField, .bytes run⟩] piece) (hrun : Varint.AllSpelled ns run)
      (hrest : OptionsLaidOut levels behaviors rest) :
      OptionsLaidOut levels (ns.map Wire.int32 ++ behaviors) (piece ++ rest)
  | other {f : Wire.Field} {behaviors : List Int32} {piece rest : List UInt8}
      (h : Spelled [f] piece) (hnumber : f.number ≠ behaviorField)
      (hheight : f.value.height ≤ levels) (hrest : OptionsLaidOut levels behaviors rest) :
      OptionsLaidOut levels behaviors (piece ++ rest)

/-- The number of the field of a field that holds its options. -/
def optionsField : Nat := 8

/-- The behaviours stand in the bytes of a field, whose options may come in several parts with other
fields in between. Below the field there may be `levels` levels. -/
inductive FieldLaidOut : Nat → List Int32 → List UInt8 → Prop
  | nil {levels : Nat} : FieldLaidOut levels [] []
  | options {levels : Nat} {part behaviors : List Int32} {options piece rest : List UInt8}
      (h : Spelled [⟨optionsField, .bytes options⟩] piece)
      (hoptions : OptionsLaidOut levels part options)
      (hrest : FieldLaidOut (levels + 1) behaviors rest) :
      FieldLaidOut (levels + 1) (part ++ behaviors) (piece ++ rest)
  | other {levels : Nat} {f : Wire.Field} {behaviors : List Int32} {piece rest : List UInt8}
      (h : Spelled [f] piece) (hnumber : f.number ≠ optionsField)
      (hheight : f.value.height ≤ levels) (hrest : FieldLaidOut levels behaviors rest) :
      FieldLaidOut levels behaviors (piece ++ rest)

/-! ### Reading -/

/-- The behaviours of a field, none if it has no options. -/
def Field.behaviors (f : Field) : List Int32 :=
  f.options.elim [] (·.behaviors)

/-- The field that the bytes hold, if they are well formed, with `levels` levels left below it. -/
def Field.decode (levels : Nat) (bytes : List UInt8) : Option Field :=
  ((Wire.parse bytes).filter (Wire.accepts wireSchema levels .field)).map .ofFields

theorem Field.isRequired_iff {f : Field} :
    f.isRequired = true ↔ requiredBehavior ∈ f.behaviors := by
  unfold Field.isRequired Field.behaviors
  cases f.options <;> simp

theorem Field.decode_eq_some_iff {levels : Nat} {bytes : List UInt8} {f : Field} :
    Field.decode levels bytes = some f ↔ ∃ fields, Spelled fields bytes ∧
      Wire.accepts wireSchema levels .field fields = true ∧ Field.ofFields fields = f := by
  simp only [Field.decode, Option.map_eq_some_iff, Option.filter_eq_some_iff,
    Wire.parse_eq_some_iff, and_assoc]

/-- The behaviours of all parts of the options count, in a row. -/
theorem Field.behaviors_ofFields (fields : List Wire.Field) :
    (Field.ofFields fields).behaviors =
      Wire.ints behaviorField (Wire.messages optionsField fields).flatten := by
  unfold Field.behaviors Field.ofFields Wire.message? optionsField
  by_cases h : Wire.messages 8 fields = []
  · simp [h, Wire.ints, Wire.numbers, Wire.valuesOf]
  · simp [h, FieldOptions.ofFields]

/-! ### Options -/

theorem ints_cons (f : Wire.Field) (fields : List Wire.Field) :
    Wire.ints behaviorField (f :: fields) =
      (if f.number = behaviorField then (f.value.numbers?.getD []).map Wire.int32 else []) ++
        Wire.ints behaviorField fields := by
  by_cases h : f.number = behaviorField <;>
    simp [Wire.ints, Wire.numbers, Wire.valuesOf, h]

/-- A field conforms to the options. -/
def ConformsToOptions (levels : Nat) (f : Wire.Field) : Prop :=
  if f.number = behaviorField then f.value.numbers?.isSome = true else f.value.height ≤ levels

theorem accepts_fieldOptions_iff {levels : Nat} {fields : List Wire.Field} :
    Wire.accepts wireSchema levels .fieldOptions fields = true ↔
      ∀ f ∈ fields, ConformsToOptions levels f := by
  rw [Wire.accepts_eq, List.all_eq_true]
  refine forall₂_congr fun f _ => ?_
  by_cases h : f.number = behaviorField
  · simp [Wire.conforms, wireSchema, ConformsToOptions, h]
  · have hnone : (wireSchema .fieldOptions).lookup f.number = none := by
      simp [wireSchema, List.lookup_cons, beq_eq_false_iff_ne.mpr h]
    simp [Wire.conforms, hnone, ConformsToOptions, h]

theorem exists_of_optionsLaidOut {levels : Nat} {behaviors : List Int32} {bytes : List UInt8}
    (h : OptionsLaidOut levels behaviors bytes) : ∃ fields, Spelled fields bytes ∧
      (∀ f ∈ fields, ConformsToOptions levels f) ∧
      Wire.ints behaviorField fields = behaviors := by
  induction h with
  | nil => exact ⟨[], Wire.spelled_nil_iff.mpr rfl, by simp, rfl⟩
  | single h _ ih =>
      obtain ⟨fields, hspelled, hconforms, rfl⟩ := ih
      refine ⟨_ :: fields, h.append hspelled, List.forall_mem_cons.mpr ⟨?_, hconforms⟩, ?_⟩
      · simp [ConformsToOptions, Wire.Value.numbers?]
      · rw [ints_cons, if_pos rfl]
        rfl
  | packed h hrun _ ih =>
      obtain ⟨fields, hspelled, hconforms, rfl⟩ := ih
      have hnumbers := Wire.Varint.decodeAll_eq_some_iff.mpr hrun
      refine ⟨_ :: fields, h.append hspelled, List.forall_mem_cons.mpr ⟨?_, hconforms⟩, ?_⟩
      · simp [ConformsToOptions, Wire.Value.numbers?, hnumbers]
      · rw [ints_cons, if_pos rfl, Wire.Value.numbers?, hnumbers, Option.getD_some]
  | other h hnumber hheight _ ih =>
      obtain ⟨fields, hspelled, hconforms, rfl⟩ := ih
      refine ⟨_ :: fields, h.append hspelled, List.forall_mem_cons.mpr ⟨?_, hconforms⟩, ?_⟩
      · rwa [ConformsToOptions, if_neg hnumber]
      · rw [ints_cons, if_neg hnumber, List.nil_append]

theorem optionsLaidOut_of_conforms {levels : Nat} {fields : List Wire.Field} :
    ∀ {bytes : List UInt8}, Spelled fields bytes → (∀ f ∈ fields, ConformsToOptions levels f) →
      OptionsLaidOut levels (Wire.ints behaviorField fields) bytes := by
  induction fields with
  | nil =>
      intro bytes hspelled _
      obtain rfl := Wire.spelled_nil_iff.mp hspelled
      exact .nil
  | cons f fields ih =>
      intro bytes hspelled hconforms
      obtain ⟨piece, rest, rfl, hpiece, hrest⟩ := Wire.exists_of_spelled_cons hspelled
      obtain ⟨hf, hfields⟩ := List.forall_mem_cons.mp hconforms
      have hlaid := ih hrest hfields
      rw [ints_cons]
      rw [ConformsToOptions] at hf
      split at hf
      · rename_i hnumber
        obtain ⟨ns, hns⟩ := Option.isSome_iff_exists.mp hf
        rw [if_pos hnumber, hns, Option.getD_some]
        obtain ⟨number, value⟩ := f
        obtain rfl : number = behaviorField := hnumber
        cases value with
        | varint n =>
            obtain rfl : [n] = ns := Option.some.inj hns
            exact .single hpiece hlaid
        | bytes run => exact .packed hpiece (Wire.Varint.decodeAll_eq_some_iff.mp hns) hlaid
        | fixed64 => exact absurd hns (by simp [Wire.Value.numbers?])
        | group => exact absurd hns (by simp [Wire.Value.numbers?])
        | fixed32 => exact absurd hns (by simp [Wire.Value.numbers?])
      · rename_i hnumber
        rw [if_neg hnumber, List.nil_append]
        exact .other hpiece hnumber hf hlaid

/-! ### Fields -/

theorem messages_cons (f : Wire.Field) (fields : List Wire.Field) :
    (Wire.messages optionsField (f :: fields)).flatten =
      (if f.number = optionsField then f.value.message?.getD [] else []) ++
        (Wire.messages optionsField fields).flatten := by
  by_cases h : f.number = optionsField
  · cases hm : f.value.message? <;> simp [Wire.messages, Wire.valuesOf, h, hm]
  · simp [Wire.messages, Wire.valuesOf, h]

theorem ints_append (fields fields' : List Wire.Field) :
    Wire.ints behaviorField (fields ++ fields') =
      Wire.ints behaviorField fields ++ Wire.ints behaviorField fields' := by
  simp [Wire.ints, Wire.numbers, Wire.valuesOf_append]

/-- A field of a field conforms: options to what options are, and others to the levels below. -/
def ConformsToField (levels : Nat) (f : Wire.Field) : Prop :=
  if f.number = optionsField then
    ∃ below options inner, levels = below + 1 ∧ f.value = .bytes options ∧ Spelled inner options ∧
      ∀ g ∈ inner, ConformsToOptions below g
  else f.value.height ≤ levels

theorem accepts_field_iff {levels : Nat} {fields : List Wire.Field} :
    Wire.accepts wireSchema levels .field fields = true ↔
      ∀ f ∈ fields, ConformsToField levels f := by
  rw [Wire.accepts_eq, List.all_eq_true]
  refine forall₂_congr fun f _ => ?_
  by_cases h : f.number = optionsField
  · have hknown : (wireSchema .field).lookup f.number = some (.message .fieldOptions) := by
      rw [h]
      rfl
    rw [ConformsToField, if_pos h]
    constructor
    · intro hf
      obtain ⟨options, inner, hvalue, hparse, henter⟩ := Wire.conforms_message hf hknown
      cases levels with
      | zero => exact absurd henter (by simp [Wire.acceptsBelow])
      | succ below => exact ⟨below, options, inner, rfl, hvalue, Wire.parse_eq_some_iff.mp hparse,
          accepts_fieldOptions_iff.mp henter⟩
    · rintro ⟨below, options, inner, rfl, hvalue, hspelled, hinner⟩
      have henter := accepts_fieldOptions_iff.mpr hinner
      simp [Wire.conforms, hknown, hvalue, Wire.Value.message?,
        Wire.parse_eq_some_iff.mpr hspelled, Wire.acceptsBelow, henter]
  · have hnone : (wireSchema .field).lookup f.number = none := by
      simp [wireSchema, List.lookup_cons, beq_eq_false_iff_ne.mpr (show f.number ≠ 8 from h)]
    simp [Wire.conforms, hnone, ConformsToField, h]

theorem behaviors_cons (f : Wire.Field) (fields : List Wire.Field) :
    (Field.ofFields (f :: fields)).behaviors =
      (if f.number = optionsField then Wire.ints behaviorField (f.value.message?.getD [])
        else []) ++ (Field.ofFields fields).behaviors := by
  rw [Field.behaviors_ofFields, Field.behaviors_ofFields, messages_cons, ints_append]
  split
  · rfl
  · rfl

/-- A field is accepted as it is laid out, and the behaviours of its parts are read in order. -/
theorem exists_of_fieldLaidOut {levels : Nat} {behaviors : List Int32} {bytes : List UInt8}
    (h : FieldLaidOut levels behaviors bytes) : ∃ fields, Spelled fields bytes ∧
      (∀ f ∈ fields, ConformsToField levels f) ∧ (Field.ofFields fields).behaviors = behaviors := by
  induction h with
  | nil => exact ⟨[], Wire.spelled_nil_iff.mpr rfl, by simp, rfl⟩
  | options h hoptions _ ih =>
      obtain ⟨fields, hspelled, hconforms, rfl⟩ := ih
      obtain ⟨inner, hinner, hbelow, rfl⟩ := exists_of_optionsLaidOut hoptions
      have hparse := Wire.parse_eq_some_iff.mpr hinner
      refine ⟨_ :: fields, h.append hspelled, List.forall_mem_cons.mpr ⟨?_, hconforms⟩, ?_⟩
      · rw [ConformsToField, if_pos rfl]
        exact ⟨_, _, inner, rfl, rfl, hinner, hbelow⟩
      · rw [behaviors_cons, if_pos rfl, Wire.Value.message?, hparse, Option.getD_some]
  | other h hnumber hheight _ ih =>
      obtain ⟨fields, hspelled, hconforms, rfl⟩ := ih
      refine ⟨_ :: fields, h.append hspelled, List.forall_mem_cons.mpr ⟨?_, hconforms⟩, ?_⟩
      · rwa [ConformsToField, if_neg hnumber]
      · rw [behaviors_cons, if_neg hnumber, List.nil_append]

theorem fieldLaidOut_of_conforms {levels : Nat} {fields : List Wire.Field} :
    ∀ {bytes : List UInt8}, Spelled fields bytes → (∀ f ∈ fields, ConformsToField levels f) →
      FieldLaidOut levels (Field.ofFields fields).behaviors bytes := by
  induction fields with
  | nil =>
      intro bytes hspelled _
      obtain rfl := Wire.spelled_nil_iff.mp hspelled
      exact .nil
  | cons f fields ih =>
      intro bytes hspelled hconforms
      obtain ⟨piece, rest, rfl, hpiece, hrest⟩ := Wire.exists_of_spelled_cons hspelled
      obtain ⟨hf, hfields⟩ := List.forall_mem_cons.mp hconforms
      have hlaid := ih hrest hfields
      rw [behaviors_cons]
      rw [ConformsToField] at hf
      split at hf
      · rename_i hnumber
        obtain ⟨below, options, inner, rfl, hvalue, hinner, hbelow⟩ := hf
        have hparse := Wire.parse_eq_some_iff.mpr hinner
        obtain ⟨number, value⟩ := f
        obtain rfl : number = optionsField := hnumber
        obtain rfl : value = .bytes options := hvalue
        rw [if_pos rfl, Wire.Value.message?, hparse, Option.getD_some]
        exact .options hpiece (optionsLaidOut_of_conforms hinner hbelow) hlaid
      · rename_i hnumber
        rw [if_neg hnumber, List.nil_append]
        exact .other hpiece hnumber hf hlaid

/-- **Behaviours are read from every layout.** The bytes in which behaviours are laid out are those
that a field with these behaviours is decoded from, in order, and the field is required if the
behaviour that says so is among them. -/
theorem laidOut_iff_decode (levels : Nat) (behaviors : List Int32) (bytes : List UInt8) :
    FieldLaidOut levels behaviors bytes ↔ ∃ f, Field.decode levels bytes = some f ∧
      f.behaviors = behaviors ∧ (f.isRequired = true ↔ requiredBehavior ∈ behaviors) := by
  constructor
  · intro h
    obtain ⟨fields, hspelled, hconforms, hbehaviors⟩ := exists_of_fieldLaidOut h
    refine ⟨.ofFields fields, Field.decode_eq_some_iff.mpr
      ⟨fields, hspelled, accepts_field_iff.mpr hconforms, rfl⟩, hbehaviors, ?_⟩
    rw [Field.isRequired_iff, hbehaviors]
  · rintro ⟨f, hdecode, rfl, -⟩
    obtain ⟨fields, hspelled, haccepts, rfl⟩ := Field.decode_eq_some_iff.mp hdecode
    exact fieldLaidOut_of_conforms hspelled (accepts_field_iff.mp haccepts)

/-- Every list of behaviours has a layout: each of them in options of its own. -/
theorem exists_fieldLaidOut (levels : Nat) (behaviors : List Int32) :
    ∃ bytes, FieldLaidOut (levels + 1) behaviors bytes := by
  induction behaviors with
  | nil => exact ⟨[], .nil⟩
  | cons behavior behaviors ih =>
      obtain ⟨rest, hrest⟩ := ih
      have hbehaviorField : Wire.IsNumber behaviorField := ⟨by decide, by decide⟩
      have hoptionsField : Wire.IsNumber optionsField := ⟨by decide, by decide⟩
      have hlength : ∀ {n : Nat}, n < 2 ^ 64 → (Wire.Varint.encode n).length ≤ 10 :=
        fun hn => (Wire.Varint.spells_encode hn).length_le
      have hnumber := hlength (Wire.ofInt32_lt behavior)
      have hkey : (Wire.Varint.encode (behaviorField * 8)).length ≤ 10 := hlength (by decide)
      let single : Wire.Field := ⟨behaviorField, .varint (Wire.ofInt32 behavior)⟩
      have hsingle : single.encode.length ≤ 20 := by
        simp only [single, Wire.Field.encode, Wire.varintField, List.length_append]
        omega
      let part : Wire.Field := ⟨optionsField, .bytes single.encode⟩
      have hpart : part.encode.length ≤ 40 := by
        have hkey : (Wire.Varint.encode (optionsField * 8 + 2)).length ≤ 10 := hlength (by decide)
        have hrun : (Wire.Varint.encode single.encode.length).length ≤ 10 := hlength (by omega)
        simp only [part, Wire.Field.encode, Wire.bytesField, List.length_append] at hsingle hrun ⊢
        omega
      have hspelled : Spelled [single] single.encode :=
        Wire.spelled_encode ⟨hbehaviorField, Wire.ofInt32_lt behavior⟩ (by omega)
      have hlaid : OptionsLaidOut levels [behavior] single.encode := by
        rw [← Wire.int32_ofInt32 behavior, ← List.append_nil single.encode]
        exact .single hspelled .nil
      have hspelledPart : Spelled [part] part.encode :=
        Wire.spelled_encode ⟨hoptionsField, trivial⟩ (by omega)
      exact ⟨part.encode ++ rest, .options hspelledPart hlaid hrest⟩

/-- A field with a name, options with a packed run of two behaviours, the second of them padded, and
an empty run, a group, and more options with a behaviour of ten bytes and another field. -/
def mixedParts : List (List UInt8) :=
  [[0x0a, 0x01, 0x78],
   [0x42, 0x09, 0xe2, 0x41, 0x03, 0x02, 0x85, 0x00, 0xe2, 0x41, 0x00],
   [0x9b, 0x06, 0x0d, 0x00, 0x00, 0x00, 0x00, 0x9c, 0x06],
   [0x42, 0x0e, 0xe0, 0x41, 0xff, 0xff, 0xff, 0xff, 0xff, 0xff, 0xff, 0xff, 0xff, 0x01, 0x18, 0x01]]

example : Field.decode Wire.nestingLimit mixedParts.flatten = some ⟨some ⟨[2, 5, -1]⟩⟩ := by
  decide +kernel

end RestScaffold.Annotated
