/-! # Varints

Numbers as bytes of seven bits each, lowest first; every byte but the last has its high bit set.

* `Varint.encode`, `Varint.decode`: a number is at most ten bytes long and below `2 ^ 64`;
* `Varint.decodeAll`: bytes that hold nothing but numbers;
* `int32`, `ofInt32`: signed numbers of 32 bits, which are written as 64. -/

namespace RestScaffold.Wire

namespace Varint

/-- The bytes of a number. -/
def encode (n : Nat) : List UInt8 :=
  if n < 128 then [n.toUInt8] else (n % 128 + 128).toUInt8 :: encode (n / 128)
termination_by n
decreasing_by omega

/-- A number of at most `room` bytes, with the bytes behind it. Seventy bits would not fit into a
word of 64, so that the last byte of a full number must be below two. -/
def decodeWithin : Nat → List UInt8 → Option (Nat × List UInt8)
  | 0, _ => none
  | _ + 1, [] => none
  | room + 1, b :: bs =>
    if b.toNat < 128 then
      if room = 0 ∧ 2 ≤ b.toNat then none else some (b.toNat, bs)
    else
      match decodeWithin room bs with
      | some (n, rest) => some (b.toNat - 128 + 128 * n, rest)
      | none => none

/-- The number at the front of the bytes, with the bytes behind it. -/
def decode (bytes : List UInt8) : Option (Nat × List UInt8) :=
  decodeWithin 10 bytes

theorem length_lt_of_decodeWithin {room : Nat} {bytes : List UInt8} {n : Nat}
    {rest : List UInt8} (h : decodeWithin room bytes = some (n, rest)) :
    rest.length < bytes.length := by
  induction room generalizing bytes n rest with
  | zero => simp [decodeWithin] at h
  | succ room ih =>
    cases bytes with
    | nil => simp [decodeWithin] at h
    | cons b bs =>
      simp only [decodeWithin] at h
      split at h
      · split at h
        · simp at h
        · simp only [Option.some.injEq, Prod.mk.injEq] at h
          simp [← h.2]
      · split at h
        · rename_i m r hd
          simp only [Option.some.injEq, Prod.mk.injEq] at h
          have := ih hd
          simp only [List.length_cons, ← h.2]
          omega
        · simp at h

/-- A number takes at least one byte. -/
theorem length_lt_of_decode {bytes : List UInt8} {n : Nat} {rest : List UInt8}
    (h : decode bytes = some (n, rest)) : rest.length < bytes.length :=
  length_lt_of_decodeWithin h

/-- The numbers that the bytes hold one after the other. -/
def decodeAll (bytes : List UInt8) : Option (List Nat) :=
  match bytes with
  | [] => some []
  | b :: bs =>
    match _h : decode (b :: bs) with
    | some (n, rest) => (decodeAll rest).map (n :: ·)
    | none => none
termination_by bytes.length
decreasing_by exact length_lt_of_decode _h

end Varint

/-- The signed number in the low 32 bits. -/
def int32 (n : Nat) : Int32 :=
  Int32.ofNat n

/-- A signed number as the word of 64 bits with its sign extended. -/
def ofInt32 (i : Int32) : Nat :=
  i.toInt64.toUInt64.toNat

end RestScaffold.Wire
