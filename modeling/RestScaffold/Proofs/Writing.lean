import Mathlib.Algebra.Group.Nat.Defs
import Mathlib.Data.List.Basic
import RestScaffold.Wire.Schema

/-! # Writing fields

What is written is read back: numbers, fields, and the messages of a schema.

* `Varint.decode_encode`, `text?_utf8`, `int32_ofInt32`: numbers below `2 ^ 64`, texts, and signed
  numbers;
* `write`, `parse_write`: fields that hold numbers or bytes;
* `Fits`: what is written is no longer than a word can say;
* `numbers_eq`, `texts_eq`, `messages_eq`: the contents of the fields of one number;
* `levelsOf`: the levels of messages that a list of them takes;
* `Sendable`: plain fields that a schema accepts, put together from fields of one kind;
* `map_messages_eq`, `map_message?_eq`: values that are read back from the messages they are in. -/

namespace RestScaffold.Wire

/-! ### Numbers and texts -/

namespace Varint

theorem toNat_byte {n : Nat} (hn : n < 256) : n.toUInt8.toNat = n :=
  UInt8.toNat_ofNat_of_lt' hn

/-- One byte more holds 128 times as many numbers; the tenth one holds a bit. -/
theorem decodeWithin_encode (rest : List UInt8) : ∀ {room n : Nat}, n < 2 * 128 ^ room →
    decodeWithin (room + 1) (encode n ++ rest) = some (n, rest)
  | room, n, hn => by
      rw [encode]
      split
      next hlast =>
        have hbyte : n.toUInt8.toNat = n := toNat_byte (by omega)
        have hroom : ¬ (room = 0 ∧ 2 ≤ n) := by
          rintro ⟨rfl, h⟩
          omega
        rw [List.singleton_append, decodeWithin, hbyte, if_pos hlast, if_neg hroom]
      next hmore =>
        have hbyte : (n % 128 + 128).toUInt8.toNat = n % 128 + 128 := toNat_byte (by omega)
        have hhigh : ¬ n % 128 + 128 < 128 := by omega
        cases room with
        | zero => omega
        | succ room =>
            have hrest : n / 128 < 2 * 128 ^ room := by
              rw [Nat.pow_succ] at hn
              omega
            have hsum : n % 128 + 128 - 128 + 128 * (n / 128) = n := by omega
            rw [List.cons_append, decodeWithin, hbyte, if_neg hhigh, decodeWithin_encode rest hrest]
            simp only [hsum]

theorem decode_encode {n : Nat} (hn : n < 2 ^ 64) (rest : List UInt8) :
    decode (encode n ++ rest) = some (n, rest) :=
  decodeWithin_encode rest (by omega)

end Varint

/-- The bytes of a text. -/
def utf8 (s : String) : List UInt8 :=
  s.toByteArray.data.toList

theorem text?_utf8 (s : String) : text? (utf8 s) = some s := by
  unfold text? String.fromUTF8?
  exact dif_pos s.isValidUTF8

theorem int32_ofInt32 (i : Int32) : int32 (ofInt32 i) = i := by
  have hword : Int64.ofNat (ofInt32 i) = i.toInt64 := by
    unfold ofInt32
    show (UInt64.ofNat i.toInt64.toUInt64.toNat).toInt64 = i.toInt64
    rw [UInt64.ofNat_toNat]
    rfl
  unfold int32
  rw [← Int64.toInt32_ofNat', hword, Int32.toInt32_toInt64]

theorem ofInt32_lt (i : Int32) : ofInt32 i < 2 ^ 64 :=
  i.toInt64.toUInt64.toNat_lt

/-! ### Fields -/

/-- The bytes of a field that holds a number or bytes. -/
def Field.encode (f : Field) : List UInt8 :=
  match f.value with
  | .varint n => varintField f.number n
  | .bytes bs => bytesField f.number bs
  | _ => []

/-- The bytes of fields in a row. -/
def write (fields : List Field) : List UInt8 :=
  fields.flatMap Field.encode

@[simp] theorem write_append (fields fields' : List Field) :
    write (fields ++ fields') = write fields ++ write fields' :=
  List.flatMap_append

/-- Numbers of fields leave room for the type in a key of 32 bits. -/
def IsNumber (number : Nat) : Prop :=
  0 < number ∧ number < 2 ^ 29

/-- A field that holds bytes, or a number of 64 bits. -/
def Field.IsPlain (f : Field) : Prop :=
  IsNumber f.number ∧
    match f.value with
    | .varint n => n < 2 ^ 64
    | .bytes _ => True
    | _ => False

/-- The length of what is written is a number of 64 bits. -/
def Fits (fields : List Field) : Prop :=
  (write fields).length < 2 ^ 64

theorem decodeKey_encode {number type : Nat} (hn : IsNumber number) (ht : type < 8)
    (rest : List UInt8) :
    decodeKey (Varint.encode (number * 8 + type) ++ rest) = some (number, type, rest) := by
  obtain ⟨hpos, hlt⟩ := hn
  have hkey : number * 8 + type < keyBound := by
    unfold keyBound
    omega
  have hnumber : (number * 8 + type) / 8 = number := by omega
  have htype : (number * 8 + type) % 8 = type := by omega
  have hne : number ≠ 0 := by omega
  unfold decodeKey
  rw [Varint.decode_encode (by omega)]
  simp only [hnumber, htype, hkey, hne, ne_eq, not_false_eq_true, and_self, if_true]

theorem takeExactly_append (bs rest : List UInt8) :
    takeExactly bs.length (bs ++ rest) = some (bs, rest) := by
  unfold takeExactly
  simp

theorem token_write {f : Field} (hp : f.IsPlain) (hf : f.encode.length < 2 ^ 64)
    (rest : List UInt8) : token (f.encode ++ rest) = some (.field f, rest) := by
  obtain ⟨number, value⟩ := f
  obtain ⟨hn, hv⟩ := hp
  unfold token
  cases value with
  | varint n =>
      have hkey := decodeKey_encode hn (show 0 < 8 by decide) (Varint.encode n ++ rest)
      rw [Nat.add_zero] at hkey
      simp only [Field.encode, varintField, List.append_assoc, hkey, tokenBody,
        Varint.decode_encode hv, Option.map_some]
  | bytes bs =>
      have hkey := decodeKey_encode hn (show 2 < 8 by decide)
        (Varint.encode bs.length ++ (bs ++ rest))
      have hlength : bs.length < 2 ^ 64 := by
        simp only [Field.encode, bytesField, List.length_append] at hf
        omega
      simp only [Field.encode, bytesField, List.append_assoc, hkey, tokenBody,
        Varint.decode_encode hlength, takeExactly_append, Option.map_some]
  | _ => exact absurd hv (by simp)

theorem tokens_of_token {bytes rest : List UInt8} {t : Token} (h : token bytes = some (t, rest)) :
    tokens bytes = (tokens rest).map (t :: ·) := by
  cases bytes with
  | nil => exact absurd h (by simp [token, decodeKey, Varint.decode, Varint.decodeWithin])
  | cons b bs =>
      rw [tokens]
      split
      next t' rest' h' =>
        obtain ⟨rfl, rfl⟩ : t' = t ∧ rest' = rest := by simpa [h] using h'.symm
        rfl
      next h' => exact absurd (h'.symm.trans h) (by simp)

theorem Fits.left {fields fields' : List Field} (h : Fits (fields ++ fields')) : Fits fields := by
  unfold Fits at h ⊢
  rw [write_append, List.length_append] at h
  omega

theorem Fits.right {fields fields' : List Field} (h : Fits (fields ++ fields')) :
    Fits fields' := by
  unfold Fits at h ⊢
  rw [write_append, List.length_append] at h
  omega

theorem tokens_write : ∀ {fields : List Field}, (∀ f ∈ fields, f.IsPlain) → Fits fields →
    tokens (write fields) = some (fields.map .field)
  | [], _, _ => by
      rw [write, List.flatMap_nil, tokens]
      rfl
  | f :: fs, hp, hf => by
      obtain ⟨hfirst, hrest⟩ := List.forall_mem_cons.mp hp
      have hfits : Fits ([f] ++ fs) := hf
      have hlength : f.encode.length < 2 ^ 64 := by
        have hone : Fits [f] := hfits.left
        simpa [Fits, write] using hone
      have htoken : token (write (f :: fs)) = some (.field f, write fs) :=
        token_write hfirst hlength (write fs)
      rw [tokens_of_token htoken, tokens_write hrest hfits.right]
      rfl

theorem fieldsOf_field (fields : List Field) : fieldsOf [] (fields.map .field) = some fields := by
  induction fields with
  | nil => rfl
  | cons f fs ih =>
      rw [List.map_cons, fieldsOf, ih]
      rfl

/-- **What is written is read back.** -/
theorem parse_write {fields : List Field} (hp : ∀ f ∈ fields, f.IsPlain) (hf : Fits fields) :
    parse (write fields) = some fields := by
  unfold parse
  rw [tokens_write hp hf]
  exact fieldsOf_field fields

/-! ### Kinds of fields -/

/-- A field that holds a number. -/
def Field.int (number n : Nat) : Field :=
  ⟨number, .varint n⟩

/-- A field that holds a text. -/
def Field.text (number : Nat) (s : String) : Field :=
  ⟨number, .bytes (utf8 s)⟩

/-- A field that holds a message. -/
def Field.message (number : Nat) (fields : List Field) : Field :=
  ⟨number, .bytes (write fields)⟩

@[simp] theorem encode_int (number n : Nat) : (Field.int number n).encode = varintField number n :=
  rfl

@[simp] theorem encode_text (number : Nat) (s : String) :
    (Field.text number s).encode = textField number s :=
  rfl

@[simp] theorem encode_message (number : Nat) (fields : List Field) :
    (Field.message number fields).encode = bytesField number (write fields) :=
  rfl

section

variable {α : Type} {number : Nat} {xs : List α} {enc : α → List Field}

theorem Fits.of_mem (h : Fits (xs.map fun x => .message number (enc x))) {x : α} (hx : x ∈ xs) :
    Fits (enc x) := by
  obtain ⟨before, after, rfl⟩ := List.append_of_mem hx
  rw [List.map_append, List.map_cons] at h
  have hone : Fits [.message number (enc x)] := Fits.left (Fits.right h)
  simp only [Fits, write, List.flatMap_singleton, Field.encode, Field.message, bytesField,
    List.length_append] at hone ⊢
  omega

/-! ### Contents -/

theorem valuesOf_append (number : Nat) (fields fields' : List Field) :
    valuesOf number (fields ++ fields') = valuesOf number fields ++ valuesOf number fields' := by
  unfold valuesOf
  rw [List.filter_append, List.map_append]

theorem valuesOf_eq_nil {number : Nat} {fields : List Field} (h : ∀ f ∈ fields, f.number ≠ number) :
    valuesOf number fields = [] := by
  have hnone : fields.filter (·.number = number) = [] := by simpa using h
  unfold valuesOf
  rw [hnone, List.map_nil]

/-- Fields of one number in a row are all that it has, or none of what another has. -/
theorem valuesOf_map (number k : Nat) (v : α → Value) (xs : List α) :
    valuesOf number (xs.map fun x => ⟨k, v x⟩) = if k = number then xs.map v else [] := by
  unfold valuesOf
  rw [List.filter_map, List.map_map]
  split
  next h => simp [h, Function.comp_def]
  next h => simp [h, Function.comp_def]

theorem valuesOf_ints (number k : Nat) (ns : List Nat) :
    valuesOf number (ns.map (.int k)) = if k = number then ns.map .varint else [] :=
  valuesOf_map number k _ ns

theorem valuesOf_texts (number k : Nat) (ss : List String) :
    valuesOf number (ss.map (.text k)) =
      if k = number then ss.map fun s => .bytes (utf8 s) else [] :=
  valuesOf_map number k _ ss

theorem valuesOf_messages (number k : Nat) :
    valuesOf number (xs.map fun x => .message k (enc x)) =
      if k = number then xs.map fun x => .bytes (write (enc x)) else [] :=
  valuesOf_map number k _ xs

variable {fields : List Field}

theorem numbers_eq {ns : List Nat} (h : valuesOf number fields = ns.map .varint) :
    numbers number fields = ns := by
  unfold numbers
  rw [h, List.flatMap_map]
  simp [Value.numbers?]

theorem texts_eq {ss : List String}
    (h : valuesOf number fields = ss.map fun s => .bytes (utf8 s)) :
    texts number fields = ss := by
  unfold texts
  rw [h, List.filterMap_map]
  simp [Function.comp_def, Value.text?, text?_utf8]

theorem messages_eq (h : valuesOf number fields = xs.map fun x => .bytes (write (enc x)))
    (hp : ∀ x ∈ xs, parse (write (enc x)) = some (enc x)) :
    messages number fields = xs.map enc := by
  unfold messages
  rw [h, List.filterMap_map]
  exact List.filterMap_eq_map_iff_forall_eq_some.mpr hp

theorem number?_eq {n : Nat} (h : valuesOf number fields = [.varint n]) :
    number? number fields = some n := by
  have hn : numbers number fields = [n] := numbers_eq h
  unfold number?
  rw [hn]
  rfl

theorem textOf?_eq {o : Option String}
    (h : valuesOf number fields = o.toList.map fun s => .bytes (utf8 s)) :
    textOf? number fields = o := by
  unfold textOf?
  rw [texts_eq h]
  cases o <;> rfl

/-- A text, unless it is empty. -/
def present (s : String) : List String :=
  if s = "" then [] else [s]

theorem text_eq {s : String}
    (h : valuesOf number fields = (present s).map fun s => .bytes (utf8 s)) :
    text number fields = s := by
  unfold text textOf?
  rw [texts_eq h, present]
  split
  next hempty => exact hempty.symm
  next => rfl

end

/-! ### Levels -/

section

variable {α : Type} {levels : α → Nat}

/-- The levels of messages that a list of them takes, each of which takes `levels` below it. -/
def levelsOf (levels : α → Nat) : List α → Nat
  | [] => 0
  | x :: xs => max (levels x + 1) (levelsOf levels xs)

theorem levelsOf_le_iff {limit : Nat} {xs : List α} :
    levelsOf levels xs ≤ limit ↔ ∀ x ∈ xs, levels x < limit := by
  induction xs with
  | nil => simp [levelsOf]
  | cons x xs ih =>
      rw [levelsOf, Nat.max_le, ih, List.forall_mem_cons]
      rfl

end

/-! ### Schemas -/

variable {τ : Type} {schema : Schema τ} {limit : Nat} {type : τ}

/-- The known fields of all types have numbers of fields. -/
def Schema.Numbered (schema : Schema τ) : Prop :=
  ∀ type, ∀ p ∈ schema type, IsNumber p.1

theorem Schema.Numbered.isNumber (hs : Schema.Numbered schema) {number : Nat} {shape : Shape τ}
    (hk : (schema type).lookup number = some shape) : IsNumber number := by
  obtain ⟨before, after, heq, -⟩ := List.lookup_eq_some_iff.mp hk
  apply hs type (number, shape)
  rw [heq]
  exact List.mem_append_right _ List.mem_cons_self

/-- How a message of `limit` levels judges those in it. -/
def acceptsBelow (schema : Schema τ) : Nat → τ → List Field → Bool
  | 0 => fun _ _ => false
  | limit + 1 => accepts schema limit

theorem accepts_eq (fields : List Field) : accepts schema limit type fields =
    fields.all (conforms (schema type) limit (acceptsBelow schema limit)) := by
  cases limit <;> rfl

/-- Plain fields that a schema accepts, with `limit` levels left below them. -/
structure Sendable (schema : Schema τ) (limit : Nat) (type : τ) (fields : List Field) : Prop where
  plain : ∀ f ∈ fields, f.IsPlain
  accepted : accepts schema limit type fields

theorem Sendable.parse_write {fields : List Field} (h : Sendable schema limit type fields)
    (hf : Fits fields) : parse (write fields) = some fields :=
  Wire.parse_write h.plain hf

theorem sendable_nil : Sendable schema limit type [] := by
  refine ⟨by simp, ?_⟩
  rw [accepts_eq]
  rfl

theorem Sendable.append {fields fields' : List Field} (h : Sendable schema limit type fields)
    (h' : Sendable schema limit type fields') :
    Sendable schema limit type (fields ++ fields') := by
  refine ⟨List.forall_mem_append.mpr ⟨h.plain, h'.plain⟩, ?_⟩
  have ha := h.accepted
  have ha' := h'.accepted
  rw [accepts_eq] at ha ha' ⊢
  rw [List.all_append, ha, ha']
  rfl

theorem sendable_map {α : Type} {xs : List α} {f : α → Field} (hp : ∀ x ∈ xs, (f x).IsPlain)
    (hc : ∀ x ∈ xs, conforms (schema type) limit (acceptsBelow schema limit) (f x)) :
    Sendable schema limit type (xs.map f) := by
  refine ⟨List.forall_mem_map.mpr hp, ?_⟩
  rw [accepts_eq, List.all_map]
  exact List.all_eq_true.mpr hc

section

variable {number : Nat} (hs : Schema.Numbered schema)

include hs

theorem sendable_numbers (hk : (schema type).lookup number = some .numbers) {ns : List Nat}
    (hn : ∀ n ∈ ns, n < 2 ^ 64) : Sendable schema limit type (ns.map (.int number)) := by
  refine sendable_map (fun n h => ⟨hs.isNumber hk, hn n h⟩) fun n _ => ?_
  unfold conforms Field.int
  simp only [hk, Value.numbers?, Option.isSome_some]

theorem sendable_number (hk : (schema type).lookup number = some .number) {n : Nat}
    (hn : n < 2 ^ 64) : Sendable schema limit type [.int number n] := by
  have hc : conforms (schema type) limit (acceptsBelow schema limit) (.int number n) := by
    unfold conforms Field.int
    simp only [hk]
  refine ⟨List.forall_mem_singleton.mpr ⟨hs.isNumber hk, hn⟩, ?_⟩
  rw [accepts_eq, List.all_cons, hc]
  rfl

theorem sendable_texts (hk : (schema type).lookup number = some .text) (ss : List String) :
    Sendable schema limit type (ss.map (.text number)) := by
  refine sendable_map (fun s _ => ⟨hs.isNumber hk, trivial⟩) fun s _ => ?_
  unfold conforms Field.text
  simp only [hk, Value.text?, text?_utf8, Option.isSome_some]

/-- Messages are sendable when what is in each of them is, one level further down. -/
theorem sendable_messages {α : Type} {xs : List α} {enc : α → List Field} {inner : τ}
    {levels : α → Nat} (hk : (schema type).lookup number = some (.message inner))
    (hl : levelsOf levels xs ≤ limit) (hf : Fits (xs.map fun x => .message number (enc x)))
    (h : ∀ x ∈ xs, ∀ further < limit, levels x ≤ further → Fits (enc x) →
      Sendable schema further inner (enc x)) :
    Sendable schema limit type (xs.map fun x => .message number (enc x)) := by
  refine sendable_map (fun x _ => ⟨hs.isNumber hk, trivial⟩) fun x hx => ?_
  have hlt : levels x < limit := levelsOf_le_iff.mp hl x hx
  obtain ⟨further, rfl⟩ : ∃ further, limit = further + 1 := ⟨limit - 1, by omega⟩
  have hinner := h x hx further (by omega) (by omega) (hf.of_mem hx)
  unfold conforms Field.message
  simp only [hk, Value.message?, hinner.parse_write (hf.of_mem hx), Option.any_some]
  exact hinner.accepted

end

/-! ### Values -/

section

variable {α : Type} {number k : Nat} {fields : List Field} {enc : α → List Field}
  {read : List Field → α} {inner : τ} {levels : α → Nat}

/-- Values in messages are read back when each is that has less levels than the limit. -/
theorem map_messages_eq {xs : List α}
    (h : valuesOf number fields = xs.map fun x => .bytes (write (enc x)))
    (hl : levelsOf levels xs ≤ limit) (hf : Fits (xs.map fun x => .message k (enc x)))
    (hs : ∀ x, Fits (enc x) → Sendable schema (levels x) inner (enc x))
    (hr : ∀ x, levels x < limit → Fits (enc x) → read (enc x) = x) :
    (messages number fields).map read = xs := by
  have hparse : ∀ x ∈ xs, parse (write (enc x)) = some (enc x) := by
    intro x hx
    have hfits := hf.of_mem hx
    exact (hs x hfits).parse_write hfits
  have hread : ∀ x ∈ xs, read (enc x) = x :=
    fun x hx => hr x (levelsOf_le_iff.mp hl x hx) (hf.of_mem hx)
  rw [messages_eq h hparse, List.map_map]
  exact (List.map_congr_left hread).trans (List.map_id xs)

theorem map_message?_eq {o : Option α}
    (h : valuesOf number fields = o.toList.map fun x => .bytes (write (enc x)))
    (hl : levelsOf levels o.toList ≤ limit)
    (hf : Fits (o.toList.map fun x => .message k (enc x)))
    (hs : ∀ x, Fits (enc x) → Sendable schema (levels x) inner (enc x))
    (hr : ∀ x, levels x < limit → Fits (enc x) → read (enc x) = x) :
    (message? number fields).map read = o := by
  have hmap := map_messages_eq h hl hf hs hr
  unfold message?
  cases o with
  | none =>
      have hnone : messages number fields = [] := List.map_eq_nil_iff.mp hmap
      rw [hnone]
      rfl
  | some x =>
      obtain ⟨one, hone, hread⟩ := List.map_eq_singleton_iff.mp hmap
      rw [hone]
      simpa using hread

end

end RestScaffold.Wire
