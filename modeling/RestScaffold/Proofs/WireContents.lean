import RestScaffold.Proofs.Sequencing
import RestScaffold.Wire.Schema

/-! # What accepted bytes contain

A message that a schema accepts holds its inner messages as runs of bytes, and each of these is
accepted one level further down.

* `payloads`: the runs of bytes in the fields of one number;
* `payloadAt`: the run that field numbers and indices lead to;
* `accepts_messages`: the messages of an accepted one, each with its bytes;
* `decodeAs_eq_some_iff`: what it means that bytes were decoded. -/

namespace RestScaffold.Wire

variable {τ : Type} {schema : Schema τ}

/-! ### Payloads -/

/-- The bytes of a value that is a run of bytes. -/
def Value.payload? : Value → Option (List UInt8)
  | .bytes bs => some bs
  | _ => none

/-- The runs of bytes in the fields of one number. -/
def payloads (number : Nat) (fields : List Field) : List (List UInt8) :=
  (valuesOf number fields).filterMap Value.payload?

/-- The bytes that a path of field numbers and indices leads to. -/
def payloadAt : List (Nat × Nat) → List UInt8 → Option (List UInt8)
  | [], bytes => some bytes
  | (number, index) :: rest, bytes =>
    ((parse bytes).bind fun fields => (payloads number fields)[index]?).bind (payloadAt rest)

theorem payloadAt_cons {bytes : List UInt8} {fields : List Field} (hp : parse bytes = some fields)
    (number index : Nat) (rest : List (Nat × Nat)) :
    payloadAt ((number, index) :: rest) bytes =
      ((payloads number fields)[index]?).bind (payloadAt rest) := by
  simp [payloadAt, hp]

theorem payloadAt_cons_eq_bind (step : Nat × Nat) (rest : List (Nat × Nat)) (bytes : List UInt8) :
    payloadAt (step :: rest) bytes = (payloadAt [step] bytes).bind (payloadAt rest) := by
  simp [payloadAt]

theorem payloadAt_append (front rest : List (Nat × Nat)) (bytes : List UInt8) :
    payloadAt (front ++ rest) bytes = (payloadAt front bytes).bind (payloadAt rest) := by
  induction front generalizing bytes with
  | nil => rfl
  | cons step front ih =>
      simp only [List.cons_append, payloadAt, Option.bind_assoc]
      congr 1
      funext fields
      congr 1
      funext inner
      exact ih inner

/-! ### Acceptance -/

theorem conforms_message {known : List (Nat × Shape τ)} {limit : Nat}
    {enter : τ → List Field → Bool} {f : Field} {type : τ}
    (h : conforms known limit enter f) (hk : known.lookup f.number = some (.message type)) :
    ∃ bytes fields, f.value = .bytes bytes ∧ parse bytes = some fields ∧ enter type fields := by
  unfold conforms at h
  rw [hk] at h
  cases hv : f.value with
  | bytes bytes =>
      cases hp : parse bytes with
      | none => simp [hv, Value.message?, hp] at h
      | some fields => exact ⟨bytes, fields, rfl, hp, by simpa [hv, Value.message?, hp] using h⟩
  | _ => simp [hv, Value.message?] at h

theorem conforms_messages {known : List (Nat × Shape τ)} {limit : Nat}
    {enter : τ → List Field → Bool} {number : Nat} {type : τ}
    (hk : known.lookup number = some (.message type)) : ∀ {fields : List Field},
    fields.all (conforms known limit enter) →
      List.Forall₂ (fun bytes inner => parse bytes = some inner ∧ enter type inner)
        (payloads number fields) (messages number fields)
  | [], _ => List.Forall₂.nil
  | f :: fs, h => by
      rw [List.all_cons, Bool.and_eq_true] at h
      have ih := conforms_messages hk h.2
      by_cases hn : f.number = number
      · obtain ⟨bytes, inner, hv, hp, he⟩ := conforms_message h.1 (hn ▸ hk)
        have hcons := List.Forall₂.cons ⟨hp, he⟩ ih
        simpa [payloads, messages, valuesOf, hn, hv, Value.payload?, Value.message?, hp] using hcons
      · simpa [payloads, messages, valuesOf, hn] using ih

/-- The messages in an accepted one, each with its bytes and accepted one level further down. -/
theorem accepts_messages {limit : Nat} {type inner : τ} (number : Nat) {fields : List Field}
    (h : accepts schema limit type fields)
    (hk : (schema type).lookup number = some (.message inner)) :
    List.Forall₂ (fun bytes below => parse bytes = some below ∧
        ∃ further, limit = further + 1 ∧ accepts schema further inner below)
      (payloads number fields) (messages number fields) := by
  cases limit with
  | zero =>
      rw [accepts] at h
      exact (conforms_messages hk h).imp fun bytes below hb => absurd hb.2 (by simp)
  | succ further =>
      rw [accepts] at h
      exact (conforms_messages hk h).imp fun bytes below hb => ⟨hb.1, further, rfl, hb.2⟩

theorem payloads_of_accepts_zero {type inner : τ} {number : Nat} {fields : List Field}
    (h : accepts schema 0 type fields)
    (hk : (schema type).lookup number = some (.message inner)) : payloads number fields = [] := by
  have hall := accepts_messages number h hk
  cases hp : payloads number fields with
  | nil => rfl
  | cons bytes rest =>
      rw [hp] at hall
      obtain ⟨below, _, ⟨-, further, hlt, -⟩, -, -⟩ := List.forall₂_cons_left_iff.mp hall
      exact absurd hlt (by omega)

theorem decodeAs_eq_some_iff {type : τ} {bytes : List UInt8} {fields : List Field} :
    decodeAs schema type bytes = some fields ↔
      parse bytes = some fields ∧ accepts schema nestingLimit type fields := by
  simp [decodeAs, Option.filter_eq_some_iff]

end RestScaffold.Wire
