import RestScaffold.Proofs.Writing

/-! # The grammar of the wire

Which bytes a message may be written in, however they were chosen.

* `Varint.Spells`, `Varint.decode_eq_some_iff`: the bytes that are read as a number, padded ones
  included;
* `IsKey`, `Token.Spelled`, `Tokenized`: the bytes of keys and of tokens;
* `Grouped`, `fieldsOf_eq_some_iff`: the tokens of fields, with groups in each other;
* `Spelled`, `parse_eq_some_iff`: the bytes that are parsed as given fields. -/

namespace RestScaffold.Wire

/-! ### Numbers -/

namespace Varint

/-- The number whose digits to the base 128 stand in the low bits of the bytes, lowest first. -/
def digitsValue : List UInt8 → Nat
  | [] => 0
  | b :: bs => b.toNat % 128 + 128 * digitsValue bs

/-- The bytes are at most ten, all of them but the last are marked, and the number in them is one of
64 bits. Bytes that only hold zeros may stand at the end. -/
structure Spells (bytes : List UInt8) (n : Nat) : Prop where
  length_le : bytes.length ≤ 10
  marked : ∃ front last, bytes = front ++ [last] ∧ (∀ b ∈ front, 128 ≤ b.toNat) ∧ last.toNat < 128
  digits : digitsValue bytes = n
  lt : n < 2 ^ 64

/-- Marked bytes and one that is not are read, if there is room for them. -/
theorem decodeWithin_of_marked (last : UInt8) (hlast : last.toNat < 128) (rest : List UInt8) :
    ∀ {front : List UInt8} {room : Nat}, (∀ b ∈ front, 128 ≤ b.toNat) → front.length ≤ room →
      digitsValue (front ++ [last]) < 2 * 128 ^ room →
        decodeWithin (room + 1) (front ++ last :: rest) =
          some (digitsValue (front ++ [last]), rest)
  | [], room, _, _, hlt => by
      have hvalue : digitsValue [last] = last.toNat := by
        simp [digitsValue, Nat.mod_eq_of_lt hlast]
      have hroom : ¬ (room = 0 ∧ 2 ≤ last.toNat) := by
        rintro ⟨rfl, h⟩
        rw [List.nil_append, hvalue] at hlt
        omega
      rw [List.nil_append, List.nil_append, decodeWithin, if_pos hlast, if_neg hroom, hvalue]
  | b :: front, 0, _, hlength, _ => absurd hlength (by simp)
  | b :: front, room + 1, hmarked, hlength, hlt => by
      obtain ⟨hb, hfront⟩ := List.forall_mem_cons.mp hmarked
      have hbyte : b.toNat < 256 := b.toNat_lt
      have hinner : digitsValue (front ++ [last]) < 2 * 128 ^ room := by
        rw [List.cons_append, digitsValue, Nat.pow_succ] at hlt
        omega
      have hlow : b.toNat % 128 = b.toNat - 128 := by omega
      rw [List.cons_append, List.cons_append, decodeWithin, if_neg (by omega),
        decodeWithin_of_marked last hlast rest hfront (by simpa using hlength) hinner, digitsValue,
        hlow]

theorem marked_of_decodeWithin {rest : List UInt8} : ∀ {room n : Nat} {bytes : List UInt8},
    decodeWithin (room + 1) bytes = some (n, rest) → ∃ front last, bytes = front ++ last :: rest ∧
      (∀ b ∈ front, 128 ≤ b.toNat) ∧ last.toNat < 128 ∧ front.length ≤ room ∧
      digitsValue (front ++ [last]) = n ∧ n < 2 * 128 ^ room
  | room, n, [], h => by simp [decodeWithin] at h
  | room, n, b :: bs, h => by
      have hbyte : b.toNat < 256 := b.toNat_lt
      rw [decodeWithin] at h
      by_cases hb : b.toNat < 128
      · rw [if_pos hb] at h
        by_cases hfull : room = 0 ∧ 2 ≤ b.toNat
        · rw [if_pos hfull] at h
          exact absurd h (by simp)
        · rw [if_neg hfull] at h
          obtain ⟨rfl, rfl⟩ := Prod.mk.inj (Option.some.inj h)
          have hlt : b.toNat < 2 * 128 ^ room := by
            rcases room with _ | room
            · omega
            · have hpos : 0 < 128 ^ room := Nat.pow_pos (by decide)
              rw [Nat.pow_succ]
              omega
          exact ⟨[], b, rfl, by simp, hb, Nat.zero_le _, by simp [digitsValue, Nat.mod_eq_of_lt hb],
            hlt⟩
      · rw [if_neg hb] at h
        rcases room with _ | room
        · simp [decodeWithin] at h
        · split at h
          · rename_i m r hinner
            obtain ⟨rfl, rfl⟩ := Prod.mk.inj (Option.some.inj h)
            obtain ⟨front, last, rfl, hfront, hlast, hlength, rfl, hlt⟩ :=
              marked_of_decodeWithin hinner
            refine ⟨b :: front, last, rfl, List.forall_mem_cons.mpr ⟨by omega, hfront⟩, hlast,
              by simpa using hlength, ?_, ?_⟩
            · have hlow : b.toNat % 128 = b.toNat - 128 := by omega
              rw [List.cons_append, digitsValue, hlow]
            · rw [Nat.pow_succ]
              omega
          · exact absurd h (by simp)

theorem decode_eq_some_iff {n : Nat} {bytes rest : List UInt8} :
    decode bytes = some (n, rest) ↔ ∃ front, bytes = front ++ rest ∧ Spells front n := by
  have hbound : 2 * 128 ^ 9 = 2 ^ 64 := by decide
  constructor
  · intro h
    obtain ⟨front, last, rfl, hfront, hlast, hlength, hvalue, hlt⟩ := marked_of_decodeWithin h
    have hroom : (front ++ [last]).length ≤ 10 := by
      rw [List.length_append, List.length_singleton]
      omega
    exact ⟨front ++ [last], by simp, hroom, ⟨front, last, rfl, hfront, hlast⟩, hvalue,
      hbound ▸ hlt⟩
  · rintro ⟨-, rfl, hlength, ⟨front, last, rfl, hfront, hlast⟩, rfl, hlt⟩
    have hroom : front.length ≤ 9 := by
      rw [List.length_append, List.length_singleton] at hlength
      omega
    rw [List.append_assoc]
    exact decodeWithin_of_marked last hlast rest hfront hroom (hbound ▸ hlt)

theorem Spells.decode {n : Nat} {bytes : List UInt8} (h : Spells bytes n) (rest : List UInt8) :
    decode (bytes ++ rest) = some (n, rest) :=
  decode_eq_some_iff.mpr ⟨bytes, rfl, h⟩

theorem spells_encode {n : Nat} (h : n < 2 ^ 64) : Spells (encode n) n := by
  obtain ⟨front, heq, hspells⟩ := decode_eq_some_iff.mp (decode_encode h [])
  rwa [List.append_cancel_right heq]

/-- The bytes of numbers in a row. -/
inductive AllSpelled : List Nat → List UInt8 → Prop
  | nil : AllSpelled [] []
  | cons {n : Nat} {ns : List Nat} {piece rest : List UInt8} (hn : Spells piece n)
      (hrest : AllSpelled ns rest) : AllSpelled (n :: ns) (piece ++ rest)

theorem decodeAll_of_decode {n : Nat} {bytes rest : List UInt8}
    (h : decode bytes = some (n, rest)) : decodeAll bytes = (decodeAll rest).map (n :: ·) := by
  cases bytes with
  | nil => exact absurd h (by simp [decode, decodeWithin])
  | cons b bs =>
      rw [decodeAll]
      split
      · rename_i m behind hm
        obtain ⟨rfl, rfl⟩ := Prod.mk.inj (Option.some.inj (hm.symm.trans h))
        rfl
      · rename_i hnone
        exact absurd (hnone.symm.trans h) (by simp)

theorem decodeAll_eq_some_iff {ns : List Nat} {bytes : List UInt8} :
    decodeAll bytes = some ns ↔ AllSpelled ns bytes := by
  constructor
  · induction ns generalizing bytes with
    | nil =>
        intro h
        cases bytes with
        | nil => exact .nil
        | cons b bs =>
            rw [decodeAll] at h
            split at h
            · simp at h
            · exact absurd h (by simp)
    | cons n ns ih =>
        intro h
        cases bytes with
        | nil =>
            rw [decodeAll] at h
            exact absurd h (by simp)
        | cons b bs =>
            rw [decodeAll] at h
            split at h
            · rename_i m rest hm
              obtain ⟨ms, hrest, heq⟩ := Option.map_eq_some_iff.mp h
              obtain ⟨rfl, rfl⟩ := List.cons.inj heq
              obtain ⟨piece, hbytes, hspells⟩ := decode_eq_some_iff.mp hm
              rw [hbytes]
              exact .cons hspells (ih hrest)
            · exact absurd h (by simp)
  · intro h
    induction h with
    | nil => rw [decodeAll]
    | cons hn _ ih =>
        rw [decodeAll_of_decode (hn.decode _), ih]
        rfl

end Varint

/-! ### Keys -/

/-- The bytes are a key: the number and the type of a field, in a word of 32 bits. -/
structure IsKey (number type : Nat) (bytes : List UInt8) : Prop where
  pos : 0 < number
  type_lt : type < 8
  lt : number * 8 + type < keyBound
  spells : Varint.Spells bytes (number * 8 + type)

theorem decodeKey_eq_some_iff {number type : Nat} {bytes rest : List UInt8} :
    decodeKey bytes = some (number, type, rest) ↔
      ∃ key, bytes = key ++ rest ∧ IsKey number type key := by
  constructor
  · intro h
    unfold decodeKey at h
    split at h
    · rename_i key r hkey
      split at h
      · rename_i hok
        simp only [Option.some.injEq, Prod.mk.injEq] at h
        obtain ⟨rfl, rfl, rfl⟩ := h
        obtain ⟨front, rfl, hspells⟩ := Varint.decode_eq_some_iff.mp hkey
        have hsum : key / 8 * 8 + key % 8 = key := by omega
        exact ⟨front, rfl, Nat.pos_of_ne_zero hok.2, Nat.mod_lt _ (by decide), hsum.symm ▸ hok.1,
          hsum.symm ▸ hspells⟩
      · exact absurd h (by simp)
    · exact absurd h (by simp)
  · rintro ⟨key, rfl, hpos, htype, hlt, hspells⟩
    have hnumber : (number * 8 + type) / 8 = number := by omega
    have hmod : (number * 8 + type) % 8 = type := by omega
    have hne : number ≠ 0 := by omega
    unfold decodeKey
    rw [hspells.decode]
    simp only [hnumber, hmod, hlt, hne, ne_eq, not_false_eq_true, and_self, if_true]

/-! ### Tokens -/

/-- The bytes of a token. -/
inductive Token.Spelled : Token → List UInt8 → Prop
  | varint {number n : Nat} {key value : List UInt8} (hk : IsKey number 0 key)
      (hn : Varint.Spells value n) : Spelled (.field ⟨number, .varint n⟩) (key ++ value)
  | fixed64 {number : Nat} {key value : List UInt8} (hk : IsKey number 1 key)
      (hlength : value.length = 8) : Spelled (.field ⟨number, .fixed64⟩) (key ++ value)
  | bytes {number : Nat} {key length bs : List UInt8} (hk : IsKey number 2 key)
      (hlength : Varint.Spells length bs.length) :
      Spelled (.field ⟨number, .bytes bs⟩) (key ++ length ++ bs)
  | groupStart {number : Nat} {key : List UInt8} (hk : IsKey number 3 key) :
      Spelled (.groupStart number) key
  | groupEnd {number : Nat} {key : List UInt8} (hk : IsKey number 4 key) :
      Spelled (.groupEnd number) key
  | fixed32 {number : Nat} {key value : List UInt8} (hk : IsKey number 5 key)
      (hlength : value.length = 4) : Spelled (.field ⟨number, .fixed32⟩) (key ++ value)

theorem takeExactly_eq_some_iff {n : Nat} {bytes taken rest : List UInt8} :
    takeExactly n bytes = some (taken, rest) ↔ bytes = taken ++ rest ∧ taken.length = n := by
  constructor
  · intro h
    unfold takeExactly at h
    split at h
    · rename_i hle
      obtain ⟨rfl, rfl⟩ := Prod.mk.inj (Option.some.inj h)
      exact ⟨(List.take_append_drop n bytes).symm, List.length_take_of_le hle⟩
    · exact absurd h (by simp)
  · rintro ⟨rfl, rfl⟩
    exact takeExactly_append taken rest

theorem spelled_of_tokenBody {number type : Nat} {key bytes rest : List UInt8} {t : Token}
    (hk : IsKey number type key) (h : tokenBody number type bytes = some (t, rest)) :
    ∃ behind, bytes = behind ++ rest ∧ t.Spelled (key ++ behind) := by
  unfold tokenBody at h
  split at h
  · simp only [Option.map_eq_some_iff, Prod.mk.injEq, Prod.exists] at h
    obtain ⟨n, r, hn, rfl, rfl⟩ := h
    obtain ⟨value, rfl, hspells⟩ := Varint.decode_eq_some_iff.mp hn
    exact ⟨value, rfl, .varint hk hspells⟩
  · simp only [Option.map_eq_some_iff, Prod.mk.injEq, Prod.exists] at h
    obtain ⟨value, r, hv, rfl, rfl⟩ := h
    obtain ⟨rfl, hlength⟩ := takeExactly_eq_some_iff.mp hv
    exact ⟨value, rfl, .fixed64 hk hlength⟩
  · split at h
    · rename_i n r hn
      obtain ⟨length, rfl, hspells⟩ := Varint.decode_eq_some_iff.mp hn
      simp only [Option.map_eq_some_iff, Prod.mk.injEq, Prod.exists] at h
      obtain ⟨bs, r, hbs, rfl, rfl⟩ := h
      obtain ⟨rfl, rfl⟩ := takeExactly_eq_some_iff.mp hbs
      exact ⟨length ++ bs, by simp, by simpa using Token.Spelled.bytes hk hspells⟩
    · exact absurd h (by simp)
  · obtain ⟨rfl, rfl⟩ := Prod.mk.inj (Option.some.inj h)
    exact ⟨[], rfl, by simpa using Token.Spelled.groupStart hk⟩
  · obtain ⟨rfl, rfl⟩ := Prod.mk.inj (Option.some.inj h)
    exact ⟨[], rfl, by simpa using Token.Spelled.groupEnd hk⟩
  · simp only [Option.map_eq_some_iff, Prod.mk.injEq, Prod.exists] at h
    obtain ⟨value, r, hv, rfl, rfl⟩ := h
    obtain ⟨rfl, hlength⟩ := takeExactly_eq_some_iff.mp hv
    exact ⟨value, rfl, .fixed32 hk hlength⟩
  · exact absurd h (by simp)

theorem token_key_append {number type : Nat} {key : List UInt8} (hk : IsKey number type key)
    (rest : List UInt8) : token (key ++ rest) = tokenBody number type rest := by
  unfold token
  rw [decodeKey_eq_some_iff.mpr ⟨key, rfl, hk⟩]

theorem token_eq_some_iff {t : Token} {bytes rest : List UInt8} :
    token bytes = some (t, rest) ↔ ∃ piece, bytes = piece ++ rest ∧ t.Spelled piece := by
  constructor
  · intro h
    unfold token at h
    split at h
    · rename_i number type r hkey
      obtain ⟨key, rfl, hk⟩ := decodeKey_eq_some_iff.mp hkey
      obtain ⟨behind, rfl, hspelled⟩ := spelled_of_tokenBody hk h
      exact ⟨key ++ behind, by simp, hspelled⟩
    · exact absurd h (by simp)
  · rintro ⟨piece, rfl, hpiece⟩
    cases hpiece with
    | varint hk hn =>
        rw [List.append_assoc, token_key_append hk]
        simp [tokenBody, hn.decode]
    | fixed64 hk hlength =>
        rw [List.append_assoc, token_key_append hk]
        simp [tokenBody, takeExactly_eq_some_iff.mpr ⟨rfl, hlength⟩]
    | bytes hk hlength =>
        rw [List.append_assoc, List.append_assoc, token_key_append hk]
        simp [tokenBody, hlength.decode, takeExactly_append]
    | groupStart hk => exact token_key_append hk rest
    | groupEnd hk => exact token_key_append hk rest
    | fixed32 hk hlength =>
        rw [List.append_assoc, token_key_append hk]
        simp [tokenBody, takeExactly_eq_some_iff.mpr ⟨rfl, hlength⟩]

/-- The bytes of tokens in a row. -/
inductive Tokenized : List Token → List UInt8 → Prop
  | nil : Tokenized [] []
  | cons {t : Token} {ts : List Token} {piece rest : List UInt8} (ht : t.Spelled piece)
      (hrest : Tokenized ts rest) : Tokenized (t :: ts) (piece ++ rest)

theorem tokens_eq_some_iff {ts : List Token} {bytes : List UInt8} :
    tokens bytes = some ts ↔ Tokenized ts bytes := by
  constructor
  · induction ts generalizing bytes with
    | nil =>
        intro h
        cases bytes with
        | nil => exact .nil
        | cons b bs =>
            rw [tokens] at h
            split at h
            · simp at h
            · exact absurd h (by simp)
    | cons t ts ih =>
        intro h
        cases bytes with
        | nil =>
            rw [tokens] at h
            exact absurd h (by simp)
        | cons b bs =>
            rw [tokens] at h
            split at h
            · rename_i t' rest htoken
              obtain ⟨ts', hrest, heq⟩ := Option.map_eq_some_iff.mp h
              obtain ⟨rfl, rfl⟩ := List.cons.inj heq
              obtain ⟨piece, hbytes, hspelled⟩ := token_eq_some_iff.mp htoken
              rw [hbytes]
              exact .cons hspelled (ih hrest)
            · exact absurd h (by simp)
  · intro h
    induction h with
    | nil => rw [tokens]
    | cons ht _ ih =>
        rw [tokens_of_token (token_eq_some_iff.mpr ⟨_, rfl, ht⟩), ih]
        rfl

/-! ### Groups -/

/-- The levels of nesting that it takes to pass over fields in a row. -/
def heightOf : List Field → Nat
  | [] => 0
  | f :: fs => max f.value.height (heightOf fs)

/-- The tokens of fields: a group has its fields between two marks of its number. -/
inductive Grouped : List Field → List Token → Prop
  | nil : Grouped [] []
  | field {f : Field} {fs : List Field} {ts : List Token} (hf : f.value.height = 1)
      (hrest : Grouped fs ts) : Grouped (f :: fs) (.field f :: ts)
  | group {number : Nat} {inner fs : List Field} {body ts : List Token}
      (hinner : Grouped inner body) (hrest : Grouped fs ts) :
      Grouped (⟨number, .group (heightOf inner + 1)⟩ :: fs)
        (.groupStart number :: body ++ .groupEnd number :: ts)

/-- What is behind the innermost open group, once it is closed with a height: the groups around it
go on, or the fields outside of groups. -/
def fieldsBehind (number height : Nat) (outer : List (Nat × Nat)) (ts : List Token) :
    Option (List Field) :=
  match outer with
  | [] => (fieldsOf [] ts).map (⟨number, .group height⟩ :: ·)
  | (next, before) :: outer => fieldsOf ((next, max before height) :: outer) ts

theorem fieldsOf_groupEnd (number height : Nat) (outer : List (Nat × Nat)) (ts : List Token) :
    fieldsOf ((number, height) :: outer) (.groupEnd number :: ts) =
      fieldsBehind number (height + 1) outer ts := by
  cases outer <;> simp [fieldsOf, fieldsBehind]

theorem fieldsOf_groupEnd_of_ne {number m : Nat} (h : number ≠ m) (height : Nat)
    (outer : List (Nat × Nat)) (ts : List Token) :
    fieldsOf ((number, height) :: outer) (.groupEnd m :: ts) = none := by
  simp [fieldsOf, h]

/-- In an open group only the height of what is met counts. -/
theorem Grouped.fieldsOf_inside {fs : List Field} {ts : List Token} (h : Grouped fs ts) :
    ∀ number height outer more, fieldsOf ((number, height) :: outer) (ts ++ more) =
      fieldsOf ((number, max height (heightOf fs)) :: outer) more := by
  induction h with
  | nil =>
      intro number height outer more
      rw [List.nil_append, heightOf, Nat.max_zero]
  | field hf _ ih =>
      intro number height outer more
      rw [List.cons_append, fieldsOf, ih, heightOf, hf, Nat.max_assoc]
  | group _ _ ihinner ihrest =>
      intro number height outer more
      rw [List.append_assoc, List.cons_append, List.cons_append, fieldsOf, ihinner,
        fieldsOf_groupEnd, fieldsBehind, ihrest, heightOf, Nat.zero_max, Value.height,
        Nat.max_assoc]

theorem Grouped.fieldsOf_outside {fs : List Field} {ts : List Token} (h : Grouped fs ts) :
    ∀ more, fieldsOf [] (ts ++ more) = (fieldsOf [] more).map (fs ++ ·) := by
  induction h with
  | nil => simp
  | field hf _ ih =>
      intro more
      rw [List.cons_append, fieldsOf, ih, Option.map_map]
      rfl
  | group hinner _ _ ihrest =>
      intro more
      rw [List.append_assoc, List.cons_append, List.cons_append, fieldsOf, hinner.fieldsOf_inside,
        fieldsOf_groupEnd, fieldsBehind, ihrest, Option.map_map, Nat.zero_max]
      rfl

/-- An open group has its fields and then the mark that closes it. -/
theorem exists_body_of_fieldsOf {number height : Nat} {outer : List (Nat × Nat)}
    {fields : List Field} : ∀ {ts : List Token}, (∀ f, .field f ∈ ts → f.value.height = 1) →
      fieldsOf ((number, height) :: outer) ts = some fields →
        ∃ inner body behind, ts = body ++ .groupEnd number :: behind ∧ Grouped inner body ∧
          fieldsBehind number (max height (heightOf inner) + 1) outer behind = some fields
  | [], _, h => by simp [fieldsOf] at h
  | .field f :: ts, hplain, h => by
      rw [fieldsOf] at h
      obtain ⟨inner, body, behind, rfl, hbody, hbehind⟩ :=
        exists_body_of_fieldsOf (fun g hg => hplain g (List.mem_cons_of_mem _ hg)) h
      have hf := hplain f List.mem_cons_self
      refine ⟨f :: inner, .field f :: body, behind, rfl, .field hf hbody, ?_⟩
      rw [heightOf, hf, ← Nat.max_assoc]
      exact hbehind
  | .groupStart m :: ts, hplain, h => by
      have hts : ∀ f, .field f ∈ ts → f.value.height = 1 :=
        fun g hg => hplain g (List.mem_cons_of_mem _ hg)
      rw [fieldsOf] at h
      -- First the group that opens here is closed, and then the one around it.
      obtain ⟨inner, body, middle, rfl, hbody, hmiddle⟩ := exists_body_of_fieldsOf hts h
      rw [fieldsBehind, Nat.zero_max] at hmiddle
      obtain ⟨inner', body', behind, rfl, hbody', hbehind⟩ := exists_body_of_fieldsOf
        (fun g hg => hts g (List.mem_append_right _ (List.mem_cons_of_mem _ hg))) hmiddle
      refine ⟨⟨m, .group (heightOf inner + 1)⟩ :: inner',
        .groupStart m :: body ++ .groupEnd m :: body', behind, by simp, .group hbody hbody', ?_⟩
      rw [heightOf, Value.height, ← Nat.max_assoc]
      exact hbehind
  | .groupEnd m :: ts, _, h => by
      by_cases hm : number = m
      · subst hm
        rw [fieldsOf_groupEnd] at h
        exact ⟨[], [], ts, rfl, .nil, by rwa [heightOf, Nat.max_zero]⟩
      · rw [fieldsOf_groupEnd_of_ne hm] at h
        exact absurd h (by simp)
termination_by ts => ts.length

theorem grouped_of_fieldsOf {fields : List Field} : ∀ {ts : List Token},
    (∀ f, .field f ∈ ts → f.value.height = 1) → fieldsOf [] ts = some fields → Grouped fields ts
  | [], _, h => by
      obtain rfl : [] = fields := by simpa [fieldsOf] using h
      exact .nil
  | .field f :: ts, hplain, h => by
      rw [fieldsOf] at h
      obtain ⟨fields', hrest, rfl⟩ := Option.map_eq_some_iff.mp h
      exact .field (hplain f List.mem_cons_self)
        (grouped_of_fieldsOf (fun g hg => hplain g (List.mem_cons_of_mem _ hg)) hrest)
  | .groupStart m :: ts, hplain, h => by
      have hts : ∀ f, .field f ∈ ts → f.value.height = 1 :=
        fun g hg => hplain g (List.mem_cons_of_mem _ hg)
      rw [fieldsOf] at h
      obtain ⟨inner, body, behind, rfl, hbody, hbehind⟩ := exists_body_of_fieldsOf hts h
      rw [fieldsBehind, Nat.zero_max] at hbehind
      obtain ⟨fields', hrest, rfl⟩ := Option.map_eq_some_iff.mp hbehind
      have hbehindPlain : ∀ f, .field f ∈ behind → f.value.height = 1 :=
        fun g hg => hts g (List.mem_append_right _ (List.mem_cons_of_mem _ hg))
      exact .group hbody (grouped_of_fieldsOf hbehindPlain hrest)
  | .groupEnd m :: ts, _, h => by simp [fieldsOf] at h
termination_by ts => ts.length

/-- Groups are taken together as they stand in each other. -/
theorem fieldsOf_eq_some_iff {ts : List Token} (h : ∀ f, .field f ∈ ts → f.value.height = 1)
    {fields : List Field} : fieldsOf [] ts = some fields ↔ Grouped fields ts := by
  refine ⟨grouped_of_fieldsOf h, fun hgrouped => ?_⟩
  have houtside := hgrouped.fieldsOf_outside []
  rw [List.append_nil] at houtside
  simp [houtside, fieldsOf]

/-! ### Messages -/

/-- The bytes spell a message with these fields. -/
def Spelled (fields : List Field) (bytes : List UInt8) : Prop :=
  ∃ ts, Tokenized ts bytes ∧ Grouped fields ts

theorem Tokenized.height_eq_one {ts : List Token} {bytes : List UInt8} (h : Tokenized ts bytes) :
    ∀ f, .field f ∈ ts → f.value.height = 1 := by
  induction h with
  | nil => intro f hf; exact absurd hf List.not_mem_nil
  | cons ht _ ih =>
      intro f hf
      rcases List.mem_cons.mp hf with rfl | hf
      · cases ht <;> rfl
      · exact ih f hf

/-- **The grammar of messages.** The bytes that are parsed as given fields are those that spell
them. -/
theorem parse_eq_some_iff {bytes : List UInt8} {fields : List Field} :
    parse bytes = some fields ↔ Spelled fields bytes := by
  rw [parse, Option.bind_eq_some_iff]
  constructor
  · rintro ⟨ts, htokens, hfields⟩
    have htokenized := tokens_eq_some_iff.mp htokens
    exact ⟨ts, htokenized, (fieldsOf_eq_some_iff htokenized.height_eq_one).mp hfields⟩
  · rintro ⟨ts, htokenized, hgrouped⟩
    exact ⟨ts, tokens_eq_some_iff.mpr htokenized,
      (fieldsOf_eq_some_iff htokenized.height_eq_one).mpr hgrouped⟩

theorem Tokenized.append {ts ts' : List Token} {bytes bytes' : List UInt8}
    (h : Tokenized ts bytes) (h' : Tokenized ts' bytes') :
    Tokenized (ts ++ ts') (bytes ++ bytes') := by
  induction h with
  | nil => exact h'
  | cons ht _ ih =>
      rw [List.append_assoc]
      exact .cons ht ih

theorem Grouped.append {fs fs' : List Field} {ts ts' : List Token} (h : Grouped fs ts)
    (h' : Grouped fs' ts') : Grouped (fs ++ fs') (ts ++ ts') := by
  induction h with
  | nil => exact h'
  | field hf _ ih => exact .field hf ih
  | group hinner _ _ ih =>
      rw [List.append_assoc, List.cons_append, List.cons_append]
      exact .group hinner ih

theorem Spelled.append {fs fs' : List Field} {bytes bytes' : List UInt8} (h : Spelled fs bytes)
    (h' : Spelled fs' bytes') : Spelled (fs ++ fs') (bytes ++ bytes') := by
  obtain ⟨ts, htokens, hgrouped⟩ := h
  obtain ⟨ts', htokens', hgrouped'⟩ := h'
  exact ⟨ts ++ ts', htokens.append htokens', hgrouped.append hgrouped'⟩

theorem exists_of_tokenized_append {ts' : List Token} : ∀ {ts : List Token} {bytes : List UInt8},
    Tokenized (ts ++ ts') bytes →
      ∃ front back, bytes = front ++ back ∧ Tokenized ts front ∧ Tokenized ts' back
  | [], bytes, h => ⟨[], bytes, rfl, .nil, h⟩
  | t :: ts, _, .cons ht hrest => by
      obtain ⟨front, back, rfl, hfront, hback⟩ := exists_of_tokenized_append hrest
      exact ⟨_, back, (List.append_assoc _ _ _).symm, .cons ht hfront, hback⟩

theorem exists_of_spelled_cons {f : Field} {fs : List Field} {bytes : List UInt8}
    (h : Spelled (f :: fs) bytes) :
    ∃ front back, bytes = front ++ back ∧ Spelled [f] front ∧ Spelled fs back := by
  obtain ⟨ts, htokens, hgrouped⟩ := h
  obtain ⟨first, behind, rfl, hfirst, hbehind⟩ : ∃ first behind, ts = first ++ behind ∧
      Grouped [f] first ∧ Grouped fs behind := by
    cases hgrouped with
    | field hf hrest => exact ⟨[.field f], _, rfl, .field hf .nil, hrest⟩
    | group hinner hrest => exact ⟨_, _, by simp, .group hinner .nil, hrest⟩
  obtain ⟨front, back, rfl, hfront, hback⟩ := exists_of_tokenized_append htokens
  exact ⟨front, back, rfl, ⟨first, hfront, hfirst⟩, ⟨behind, hback, hbehind⟩⟩

theorem spelled_nil_iff {bytes : List UInt8} : Spelled [] bytes ↔ bytes = [] := by
  constructor
  · rintro ⟨ts, htokens, hgrouped⟩
    cases hgrouped
    cases htokens
    rfl
  · rintro rfl
    exact ⟨[], .nil, .nil⟩

theorem spelled_singleton_iff {f : Field} (hf : ∀ height, f.value ≠ .group height)
    {bytes : List UInt8} : Spelled [f] bytes ↔ (Token.field f).Spelled bytes := by
  constructor
  · rintro ⟨ts, htokens, hgrouped⟩
    cases hgrouped with
    | field _ hrest =>
        cases hrest
        cases htokens with
        | cons ht hrest =>
            cases hrest
            rwa [List.append_nil]
    | group => exact absurd rfl (hf _)
  · intro h
    have hheight : f.value.height = 1 := by
      unfold Value.height
      split
      · rename_i height hvalue
        exact absurd hvalue (hf height)
      · rfl
    exact ⟨[.field f], by simpa using Tokenized.cons h .nil, .field hheight .nil⟩

theorem spelled_encode {f : Field} (hp : f.IsPlain) (hf : f.encode.length < 2 ^ 64) :
    Spelled [f] f.encode := by
  obtain ⟨piece, heq, hpiece⟩ := token_eq_some_iff.mp (token_write hp hf [])
  have hgroup : ∀ height, f.value ≠ .group height := by
    intro height hvalue
    have hplain := hp.2
    rw [hvalue] at hplain
    exact hplain
  rw [List.append_cancel_right heq]
  exact (spelled_singleton_iff hgroup).mpr hpiece

end RestScaffold.Wire
