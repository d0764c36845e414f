import RestScaffold.Wire.Varint

/-! # Fields on the wire

A message on the wire is a sequence of numbered fields, and can be cut into them without knowing
what they mean.

* `Token`, `tokens`: plain fields, and the marks around groups;
* `fieldsOf`: tokens with each group taken together;
* `parse`: the fields of a message;
* `varintField`, `bytesField`: the bytes of one field. -/

namespace RestScaffold.Wire

/-- What a field holds. Nothing reads fields of fixed width, so that their bytes are dropped;
of a group only its height is kept. -/
inductive Value where
  | varint (n : Nat)
  | fixed64
  | bytes (bs : List UInt8)
  /-- A group that has `height` levels, itself included. -/
  | group (height : Nat)
  | fixed32
deriving DecidableEq, Repr

/-- A numbered value. -/
structure Field where
  number : Nat
  value : Value
deriving DecidableEq, Repr

/-- The levels of nesting that it takes to pass over a value. -/
def Value.height : Value → Nat
  | .group height => height
  | _ => 1

/-! ### Tokens -/

/-- A field that is no group, or a mark at the start or the end of one. -/
inductive Token where
  | field (f : Field)
  | groupStart (number : Nat)
  | groupEnd (number : Nat)
deriving DecidableEq, Repr

/-- The first `n` bytes and those behind them, if there are so many. -/
def takeExactly (n : Nat) (bytes : List UInt8) : Option (List UInt8 × List UInt8) :=
  if n ≤ bytes.length then some (bytes.take n, bytes.drop n) else none

/-- Keys are words of 32 bits. -/
def keyBound : Nat := 4294967296

/-- The key of a field holds its number, which is not zero, and the type of its value. -/
def decodeKey (bytes : List UInt8) : Option (Nat × Nat × List UInt8) :=
  match Varint.decode bytes with
  | some (key, rest) =>
    if key < keyBound ∧ key / 8 ≠ 0 then some (key / 8, key % 8, rest) else none
  | none => none

/-- What follows a key whose type is `type`. -/
def tokenBody (number type : Nat) (bytes : List UInt8) : Option (Token × List UInt8) :=
  match type with
  | 0 => (Varint.decode bytes).map fun (n, rest) => (.field ⟨number, .varint n⟩, rest)
  | 1 => (takeExactly 8 bytes).map fun (_, rest) => (.field ⟨number, .fixed64⟩, rest)
  | 2 =>
    match Varint.decode bytes with
    | some (n, rest) =>
      (takeExactly n rest).map fun (bs, rest) => (.field ⟨number, .bytes bs⟩, rest)
    | none => none
  | 3 => some (.groupStart number, bytes)
  | 4 => some (.groupEnd number, bytes)
  | 5 => (takeExactly 4 bytes).map fun (_, rest) => (.field ⟨number, .fixed32⟩, rest)
  | _ => none

/-- The token at the front of the bytes, with the bytes behind it. -/
def token (bytes : List UInt8) : Option (Token × List UInt8) :=
  match decodeKey bytes with
  | some (number, type, rest) => tokenBody number type rest
  | none => none

theorem length_lt_of_decodeKey {bytes : List UInt8} {number type : Nat} {rest : List UInt8}
    (h : decodeKey bytes = some (number, type, rest)) : rest.length < bytes.length := by
  unfold decodeKey at h
  split at h
  · rename_i key r hd
    split at h
    · simp only [Option.some.injEq, Prod.mk.injEq] at h
      simpa [← h.2.2] using Varint.length_lt_of_decode hd
    · simp at h
  · simp at h

theorem length_le_of_takeExactly {n : Nat} {bytes taken rest : List UInt8}
    (h : takeExactly n bytes = some (taken, rest)) : rest.length ≤ bytes.length := by
  unfold takeExactly at h
  split at h
  · simp only [Option.some.injEq, Prod.mk.injEq] at h
    simp [← h.2]
  · simp at h

theorem length_le_of_tokenBody {number type : Nat} {bytes : List UInt8} {t : Token}
    {rest : List UInt8} (h : tokenBody number type bytes = some (t, rest)) :
    rest.length ≤ bytes.length := by
  unfold tokenBody at h
  split at h
  · simp only [Option.map_eq_some_iff, Prod.mk.injEq, Prod.exists] at h
    obtain ⟨n, r, hd, -, rfl⟩ := h
    exact Nat.le_of_lt (Varint.length_lt_of_decode hd)
  · simp only [Option.map_eq_some_iff, Prod.mk.injEq, Prod.exists] at h
    obtain ⟨bs, r, hd, -, rfl⟩ := h
    exact length_le_of_takeExactly hd
  · split at h
    · rename_i n r hd
      simp only [Option.map_eq_some_iff, Prod.mk.injEq, Prod.exists] at h
      obtain ⟨bs, r', ht, -, rfl⟩ := h
      exact Nat.le_trans (length_le_of_takeExactly ht)
        (Nat.le_of_lt (Varint.length_lt_of_decode hd))
    · simp at h
  · simp only [Option.some.injEq, Prod.mk.injEq] at h
    simp [← h.2]
  · simp only [Option.some.injEq, Prod.mk.injEq] at h
    simp [← h.2]
  · simp only [Option.map_eq_some_iff, Prod.mk.injEq, Prod.exists] at h
    obtain ⟨bs, r, hd, -, rfl⟩ := h
    exact length_le_of_takeExactly hd
  · simp at h

/-- A token takes at least one byte. -/
theorem length_lt_of_token {bytes : List UInt8} {t : Token} {rest : List UInt8}
    (h : token bytes = some (t, rest)) : rest.length < bytes.length := by
  unfold token at h
  split at h
  · rename_i number type r hd
    exact Nat.lt_of_le_of_lt (length_le_of_tokenBody h) (length_lt_of_decodeKey hd)
  · simp at h

/-- The bytes cut into tokens. -/
def tokens (bytes : List UInt8) : Option (List Token) :=
  match bytes with
  | [] => some []
  | b :: bs =>
    match _h : token (b :: bs) with
    | some (t, rest) => (tokens rest).map (t :: ·)
    | none => none
termination_by bytes.length
decreasing_by exact length_lt_of_token _h

/-! ### Groups -/

/-- Takes the tokens of each group together. `groups` holds the groups that are open, innermost
first, each with the height of what was met in it. A group ends at the mark of its number. -/
def fieldsOf (groups : List (Nat × Nat)) : List Token → Option (List Field)
  | [] => if groups = [] then some [] else none
  | .field f :: ts =>
    match groups with
    | [] => (fieldsOf [] ts).map (f :: ·)
    | (number, height) :: outer => fieldsOf ((number, max height 1) :: outer) ts
  | .groupStart number :: ts => fieldsOf ((number, 0) :: groups) ts
  | .groupEnd number :: ts =>
    match groups with
    | [] => none
    | (opened, height) :: outer =>
      if opened = number then
        match outer with
        | [] => (fieldsOf [] ts).map (⟨number, .group (height + 1)⟩ :: ·)
        | (next, before) :: outer => fieldsOf ((next, max before (height + 1)) :: outer) ts
      else none

/-- The fields of a message. -/
def parse (bytes : List UInt8) : Option (List Field) :=
  (tokens bytes).bind (fieldsOf [])

/-! ### Writing -/

/-- The bytes of a field that holds a number. -/
def varintField (number n : Nat) : List UInt8 :=
  Varint.encode (number * 8) ++ Varint.encode n

/-- The bytes of a field that holds bytes. -/
def bytesField (number : Nat) (bs : List UInt8) : List UInt8 :=
  Varint.encode (number * 8 + 2) ++ Varint.encode bs.length ++ bs

/-- The bytes of a field that holds a text. -/
def textField (number : Nat) (s : String) : List UInt8 :=
  bytesField number s.toByteArray.data.toList

end RestScaffold.Wire
