import RestScaffold.Annotated.OnWire
import RestScaffold.Descriptor.OnWire
import RestScaffold.Proofs.IndexPath
import RestScaffold.Proofs.WireContents
import RestScaffold.Proofs.Writing

/-! # Requests without annotations

The annotations of a request are read by a schema that knows few of its fields, and passes over
the others. Passing over a field takes a level of nesting, which reading it may not, so that bytes
could be a request and yet be refused when they are read for annotations.

* `Wire.Entered`, `Wire.entries`: the messages that a decoder enters, as a relation with their
  levels and as a list;
* `Unannotated`: bytes in which no field has behaviours and no method has a rule;
* `Annotated.accepts_of_bare`: what is accepted as descriptors with a level to spare is accepted as
  annotations;
* `exists_bare_of_decode`: bytes without annotations are read, and no annotations are read from them. -/

namespace RestScaffold

namespace Wire

variable {τ : Type} {schema : Schema τ} {root : τ} {bytes : List UInt8}

/-! ### Entered messages -/

/-- A decoder of the bytes enters a message of the given type and fields, so many levels below the
outermost one. -/
inductive Entered (schema : Schema τ) (root : τ) (bytes : List UInt8) :
    Nat → τ → List Field → Prop
  | outermost {fields : List Field} : parse bytes = some fields →
      Entered schema root bytes 0 root fields
  | inner {level : Nat} {type type' : τ} {fields below : List Field} {f : Field} :
      Entered schema root bytes level type fields → f ∈ fields →
      (schema type).lookup f.number = some (.message type') → f.value.message? = some below →
      Entered schema root bytes (level + 1) type' below

theorem mem_messages {number : Nat} {fields below : List Field} :
    below ∈ messages number fields ↔
      ∃ f ∈ fields, f.number = number ∧ f.value.message? = some below := by
  simp [messages, valuesOf, and_assoc]

/-- The messages in the fields of one number are entered with the one that has the fields. -/
theorem Entered.of_mem_messages {level : Nat} {type type' : τ} {fields below : List Field}
    (h : Entered schema root bytes level type fields) {number : Nat}
    (hk : (schema type).lookup number = some (.message type'))
    (hb : below ∈ messages number fields) :
    Entered schema root bytes (level + 1) type' below := by
  obtain ⟨f, hf, rfl, hm⟩ := mem_messages.mp hb
  exact h.inner hf hk hm

/-- The messages that are entered with one at `level`, itself first, down to `limit` levels
below it. -/
def entries (schema : Schema τ) : Nat → Nat → τ → List Field → List (Nat × τ × List Field)
  | 0, level, type, fields => [(level, type, fields)]
  | limit + 1, level, type, fields =>
    (level, type, fields) :: fields.flatMap fun f =>
      match (schema type).lookup f.number, f.value.message? with
      | some (.message type'), some below => entries schema limit (level + 1) type' below
      | _, _ => []

theorem mem_entries_self (limit level : Nat) (type : τ) (fields : List Field) :
    (level, type, fields) ∈ entries schema limit level type fields := by
  cases limit <;> simp [entries]

/-- A message in a listed one is listed: where the fields are accepted, the limit leaves room. -/
theorem mem_entries_inner {limit start level : Nat} {type type₀ type' : τ}
    {fields fields₀ below : List Field} {f : Field} (ha : accepts schema limit type₀ fields₀)
    (h : (level, type, fields) ∈ entries schema limit start type₀ fields₀) (hf : f ∈ fields)
    (hk : (schema type).lookup f.number = some (.message type'))
    (hm : f.value.message? = some below) :
    (level + 1, type', below) ∈ entries schema limit start type₀ fields₀ := by
  induction limit generalizing start type₀ fields₀ with
  | zero =>
      rw [entries, List.mem_singleton, Prod.mk.injEq, Prod.mk.injEq] at h
      obtain ⟨rfl, rfl, rfl⟩ := h
      rw [accepts, List.all_eq_true] at ha
      obtain ⟨_, _, _, _, hnone⟩ := conforms_message (ha f hf) hk
      exact absurd hnone (by simp)
  | succ limit ih =>
      rw [entries, List.mem_cons, List.mem_flatMap] at h ⊢
      rw [accepts, List.all_eq_true] at ha
      right
      rcases h with heq | ⟨g, hg, h⟩
      · rw [Prod.mk.injEq, Prod.mk.injEq] at heq
        obtain ⟨rfl, rfl, rfl⟩ := heq
        refine ⟨f, hf, ?_⟩
        rw [hk, hm]
        exact mem_entries_self _ _ _ _
      · refine ⟨g, hg, ?_⟩
        split at h
        next type₁ below₁ hk₁ hm₁ =>
          obtain ⟨_, inner, hv, hp, haccept⟩ := conforms_message (ha g hg) hk₁
          have hinner : inner = below₁ := by simpa [hv, Value.message?, hp] using hm₁
          exact ih (hinner ▸ haccept) h
        next => exact absurd h List.not_mem_nil

theorem mem_entries_of_entered {limit level : Nat} {type : τ} {fields fields₀ : List Field}
    (hp : parse bytes = some fields₀) (ha : accepts schema limit root fields₀)
    (h : Entered schema root bytes level type fields) :
    (level, type, fields) ∈ entries schema limit 0 root fields₀ := by
  induction h with
  | outermost hp' =>
      obtain rfl := Option.some.inj (hp.symm.trans hp')
      exact mem_entries_self _ _ _ _
  | inner _ hf hk hm ih => exact mem_entries_inner ha ih hf hk hm

/-! ### Passing over fields -/

/-- A field that is read, or passed over with a level left, has no more levels than are left. -/
theorem height_le_of_conforms {known : List (Nat × Shape τ)} {limit : Nat}
    {enter : τ → List Field → Bool} {f : Field} (h : conforms known limit enter f)
    (hl : 1 ≤ limit) : f.value.height ≤ limit := by
  cases hv : f.value with
  | group height =>
      -- No shape of a known field is a group.
      unfold conforms at h
      cases hk : known.lookup f.number with
      | none => simpa [hk, hv] using h
      | some shape =>
          cases shape <;>
            simp [hk, hv, Value.numbers?, Value.text?, Value.message?] at h
  | _ => exact hl

end Wire

open Wire (Entered)

/-! ### Bytes without annotations -/

/-- No field of a message has options with behaviours in them, and no options of a method have a
rule in them; the messages are those that the decoder of descriptors enters. -/
structure Unannotated (bytes : List UInt8) : Prop where
  noBehaviors : ∀ {level fields}, Entered Descriptor.wireSchema .request bytes level .message fields →
    ∀ field ∈ Wire.messages 2 fields, ∀ options ∈ Wire.messages 8 field,
      ∀ f ∈ options, f.number ≠ Annotated.behaviorField
  noRules : ∀ {level fields},
    Entered Descriptor.wireSchema .request bytes level .methodOptions fields →
      ∀ f ∈ fields, f.number ≠ Annotated.ruleField

namespace Annotated

open Wire (Shape)

/-- The type of descriptors that a type is a part of; rules are in none. -/
def WireType.whole : WireType → Option Descriptor.WireType
  | .request => some .request
  | .file => some .file
  | .message => some .message
  | .field => some .field
  | .fieldOptions => some .fieldOptions
  | .service => some .service
  | .method => some .method
  | .methodOptions => some .methodOptions
  | .rule => none
  | .customPattern => none

/-- Has a message of the given type no annotations in its own fields, or in those of its options? -/
def BareFields : WireType → List Wire.Field → Prop
  | .message, fields => ∀ field ∈ Wire.messages 2 fields, ∀ options ∈ Wire.messages 8 field,
      ∀ f ∈ options, f.number ≠ behaviorField
  | .field, fields => ∀ options ∈ Wire.messages 8 fields, ∀ f ∈ options, f.number ≠ behaviorField
  | .fieldOptions, fields => ∀ f ∈ fields, f.number ≠ behaviorField
  | .methodOptions, fields => ∀ f ∈ fields, f.number ≠ ruleField
  | _, _ => True

theorem eq_of_lookup_field {type : WireType} {number : Nat}
    (hk : (wireSchema type).lookup number = some (.message .field)) :
    type = .message ∧ number = 2 := by
  have hmem := mem_of_lookup_eq_some hk
  cases type <;> simp [wireSchema] at hmem
  exact ⟨rfl, hmem⟩

theorem eq_of_lookup_fieldOptions {type : WireType} {number : Nat}
    (hk : (wireSchema type).lookup number = some (.message .fieldOptions)) :
    type = .field ∧ number = 8 := by
  have hmem := mem_of_lookup_eq_some hk
  cases type <;> simp [wireSchema] at hmem
  exact ⟨rfl, hmem⟩

/-- What is known of a type is an annotation, or is known of the whole in the same form. -/
theorem lookup_cases {type : WireType} {whole : Descriptor.WireType} (hw : type.whole = some whole)
    {number : Nat} {shape : Shape WireType}
    (hk : (wireSchema type).lookup number = some shape) :
    (type = .fieldOptions ∧ number = behaviorField) ∨
    (type = .methodOptions ∧ number = ruleField) ∨
    (shape = .text ∧ (Descriptor.wireSchema whole).lookup number = some .text) ∨
    ∃ type' whole', shape = .message type' ∧ type'.whole = some whole' ∧
      (Descriptor.wireSchema whole).lookup number = some (.message whole') := by
  have hmem := mem_of_lookup_eq_some hk
  cases type <;> cases hw <;>
    simp only [wireSchema, List.mem_cons, List.not_mem_nil, or_false, Prod.mk.injEq] at hmem
  case fieldOptions => exact Or.inl ⟨rfl, hmem.1⟩
  case methodOptions => exact Or.inr (Or.inl ⟨rfl, hmem.1⟩)
  case request =>
    obtain ⟨rfl, rfl⟩ := hmem
    exact Or.inr (Or.inr (Or.inr ⟨.file, .file, rfl, rfl, rfl⟩))
  case file =>
    rcases hmem with ⟨rfl, rfl⟩ | ⟨rfl, rfl⟩ | ⟨rfl, rfl⟩
    · exact Or.inr (Or.inr (Or.inl ⟨rfl, rfl⟩))
    · exact Or.inr (Or.inr (Or.inr ⟨.message, .message, rfl, rfl, rfl⟩))
    · exact Or.inr (Or.inr (Or.inr ⟨.service, .service, rfl, rfl, rfl⟩))
  case message =>
    rcases hmem with ⟨rfl, rfl⟩ | ⟨rfl, rfl⟩
    · exact Or.inr (Or.inr (Or.inr ⟨.field, .field, rfl, rfl, rfl⟩))
    · exact Or.inr (Or.inr (Or.inr ⟨.message, .message, rfl, rfl, rfl⟩))
  case field =>
    obtain ⟨rfl, rfl⟩ := hmem
    exact Or.inr (Or.inr (Or.inr ⟨.fieldOptions, .fieldOptions, rfl, rfl, rfl⟩))
  case service =>
    obtain ⟨rfl, rfl⟩ := hmem
    exact Or.inr (Or.inr (Or.inr ⟨.method, .method, rfl, rfl, rfl⟩))
  case method =>
    obtain ⟨rfl, rfl⟩ := hmem
    exact Or.inr (Or.inr (Or.inr ⟨.methodOptions, .methodOptions, rfl, rfl, rfl⟩))

/-! ### Acceptance -/

variable {bytes : List UInt8}

theorem BareFields.inner (hu : Unannotated bytes) {level : Nat} {type type' : WireType}
    {whole' : Descriptor.WireType} {fields below : List Wire.Field} {f : Wire.Field}
    (hb : BareFields type fields) (hf : f ∈ fields)
    (hk : (wireSchema type).lookup f.number = some (.message type'))
    (hw : type'.whole = some whole')
    (he : Entered Descriptor.wireSchema .request bytes level whole' below)
    (hm : f.value.message? = some below) : BareFields type' below := by
  cases type' <;> cases hw
  case message => exact hu.noBehaviors he
  case methodOptions => exact hu.noRules he
  case field =>
    obtain ⟨rfl, hn⟩ := eq_of_lookup_field hk
    exact hb below (Wire.mem_messages.mpr ⟨f, hf, hn, hm⟩)
  case fieldOptions =>
    obtain ⟨rfl, hn⟩ := eq_of_lookup_fieldOptions hk
    exact hb below (Wire.mem_messages.mpr ⟨f, hf, hn, hm⟩)
  all_goals trivial

/-- A field that is no annotation conforms to what is known of a part when it conforms to what is
known of the whole: where the part does not know it, passing over it takes the level to spare. -/
theorem conforms_of_whole {type : WireType} {whole : Descriptor.WireType}
    (hw : type.whole = some whole) {limit : Nat} (hl : 1 ≤ limit)
    {enter : Descriptor.WireType → List Wire.Field → Bool}
    {enter' : WireType → List Wire.Field → Bool} {f : Wire.Field}
    (hbehavior : ¬ (type = .fieldOptions ∧ f.number = behaviorField))
    (hrule : ¬ (type = .methodOptions ∧ f.number = ruleField))
    (henter : ∀ type' whole' below, (wireSchema type).lookup f.number = some (.message type') →
      type'.whole = some whole' →
      (Descriptor.wireSchema whole).lookup f.number = some (.message whole') →
      f.value.message? = some below → enter whole' below → enter' type' below)
    (hc : Wire.conforms (Descriptor.wireSchema whole) limit enter f) :
    Wire.conforms (wireSchema type) limit enter' f := by
  cases hk : (wireSchema type).lookup f.number with
  | none =>
      have hheight := Wire.height_le_of_conforms hc hl
      unfold Wire.conforms
      rw [hk]
      simpa using hheight
  | some shape =>
      rcases lookup_cases hw hk with h | h | ⟨rfl, hd⟩ | ⟨type', whole', rfl, hw', hd⟩
      · exact absurd h hbehavior
      · exact absurd h hrule
      · unfold Wire.conforms at hc ⊢
        rw [hk]
        rw [hd] at hc
        exact hc
      · obtain ⟨bs, below, hv, hp, haccept⟩ := Wire.conforms_message hc hd
        have hm : f.value.message? = some below := by simpa [hv, Wire.Value.message?] using hp
        unfold Wire.conforms
        rw [hk]
        simpa [hm] using henter type' whole' below hk hw' hd hm haccept

/-- **What is accepted as descriptors is accepted as annotations**, where every message leaves a
level. -/
theorem accepts_of_bare (hu : Unannotated bytes)
    (hshallow : ∀ {level type fields},
      Entered Descriptor.wireSchema .request bytes level type fields → level < Wire.nestingLimit)
    {limit level : Nat} {type : WireType} {whole : Descriptor.WireType} {fields : List Wire.Field}
    (hlevel : level + limit = Wire.nestingLimit) (hw : type.whole = some whole)
    (he : Entered Descriptor.wireSchema .request bytes level whole fields)
    (hb : BareFields type fields) (ha : Wire.accepts Descriptor.wireSchema limit whole fields) :
    Wire.accepts wireSchema limit type fields := by
  induction limit generalizing level type whole fields with
  | zero =>
      have := hshallow he
      omega
  | succ limit ih =>
      rw [Wire.accepts, List.all_eq_true] at ha ⊢
      intro f hf
      refine conforms_of_whole hw (by omega) ?_ ?_ ?_ (ha f hf)
      · rintro ⟨rfl, hn⟩
        exact hb f hf hn
      · rintro ⟨rfl, hn⟩
        exact hb f hf hn
      · intro type' whole' below hk hw' hd hm haccept
        have hbelow := he.inner hf hd hm
        exact ih (by omega) hw' hbelow (hb.inner hu hf hk hw' hbelow hm) haccept

/-! ### Reading -/

theorem forall_of_message? {number absent : Nat} {fields all : List Wire.Field}
    (h : ∀ below ∈ Wire.messages number fields, ∀ f ∈ below, f.number ≠ absent)
    (hall : Wire.message? number fields = some all) : ∀ f ∈ all, f.number ≠ absent := by
  obtain ⟨-, rfl⟩ : _ ∧ (Wire.messages number fields).flatten = all := by
    simpa [Wire.message?] using hall
  intro f hf
  obtain ⟨below, hb, hmem⟩ := List.mem_flatten.mp hf
  exact h below hb f hmem

theorem isRequired_ofFields {fields : List Wire.Field} (hb : BareFields .field fields) :
    (Field.ofFields fields).isRequired = false := by
  cases ho : Wire.message? 8 fields with
  | none => simp [Field.ofFields, Field.isRequired, ho]
  | some options =>
      have hnone : Wire.valuesOf behaviorField options = [] :=
        Wire.valuesOf_eq_nil (forall_of_message? hb ho)
      simp [Field.ofFields, Field.isRequired, ho, FieldOptions.ofFields, Wire.ints, Wire.numbers,
        hnone]

theorem rule_ofFields {limit : Nat} {fields : List Wire.Field}
    (h : ∀ options ∈ Wire.messages 4 fields, ∀ f ∈ options, f.number ≠ ruleField) :
    (Method.ofFields limit fields).rule = none := by
  cases ho : Wire.message? 4 fields with
  | none => simp [Method.ofFields, Method.rule, ho]
  | some options =>
      have hnone : Wire.message? ruleField options = none := by
        simp [Wire.message?, Wire.messages, Wire.valuesOf_eq_nil (forall_of_message? h ho)]
      simp [Method.ofFields, Method.rule, ho, MethodOptions.ofFields, hnone]

/-- A message that is read from an entered one, or is nested in it, is read from an entered one. -/
theorem exists_entered_of_at? {path : IndexPath} : ∀ {limit level : Nat}
    {fields : List Wire.Field} {m : Message},
    Entered Descriptor.wireSchema .request bytes level .message fields →
    (Message.ofFields limit fields).at? path = some m →
      ∃ limit' level' fields', m = Message.ofFields limit' fields' ∧
        Entered Descriptor.wireSchema .request bytes level' .message fields' := by
  induction path with
  | nil =>
      intro limit level fields m he hm
      exact ⟨limit, level, fields, (Option.some.inj hm).symm, he⟩
  | cons i path ih =>
      intro limit level fields m he hm
      obtain ⟨n, hn, hm⟩ := Option.bind_eq_some_iff.mp hm
      cases limit with
      | zero => exact absurd hn (by simp [Message.ofFields])
      | succ limit =>
          have hmem : n ∈ (Wire.messages 3 fields).map (Message.ofFields limit) :=
            List.mem_of_getElem? hn
          obtain ⟨below, hbelow, rfl⟩ := List.mem_map.mp hmem
          exact ih (he.of_mem_messages rfl hbelow) hm

/-- No field is required, and no method has a rule. -/
structure Request.IsBare (a : Request) : Prop where
  fields : ∀ file path m, a.message? file path = some m → ∀ f ∈ m.fields, f.isRequired = false
  methods : ∀ file ∈ a.files, ∀ s ∈ file.services, ∀ m ∈ s.methods, m.rule = none

theorem isBare_ofFields (hu : Unannotated bytes) {fields : List Wire.Field}
    (hp : Wire.parse bytes = some fields) : (Request.ofFields fields).IsBare := by
  have hroot : Entered Descriptor.wireSchema .request bytes 0 .request fields := .outermost hp
  constructor
  · intro i path m hm f hf
    obtain ⟨file, hfile, hm⟩ := Option.bind_eq_some_iff.mp hm
    obtain ⟨fileFields, hff, rfl⟩ := List.mem_map.mp (List.mem_of_getElem? hfile)
    cases path with
    | nil => exact absurd hm (by simp [File.message?])
    | cons i path =>
        obtain ⟨top, htop, hm⟩ := Option.bind_eq_some_iff.mp hm
        obtain ⟨topFields, htf, rfl⟩ := List.mem_map.mp (List.mem_of_getElem? htop)
        have htopEntered := (hroot.of_mem_messages rfl hff).of_mem_messages rfl htf
        obtain ⟨limit, level, found, rfl, he⟩ := exists_entered_of_at? htopEntered hm
        obtain ⟨field, hfield, rfl⟩ : ∃ field ∈ Wire.messages 2 found, Field.ofFields field = f := by
          cases limit <;> exact List.mem_map.mp hf
        exact isRequired_ofFields (hu.noBehaviors he field hfield)
  · intro file hfile s hs m hm
    obtain ⟨fileFields, hff, rfl⟩ := List.mem_map.mp hfile
    obtain ⟨serviceFields, hsf, rfl⟩ := List.mem_map.mp hs
    obtain ⟨methodFields, hmf, rfl⟩ := List.mem_map.mp hm
    have hmethod := ((hroot.of_mem_messages rfl hff).of_mem_messages rfl hsf).of_mem_messages rfl hmf
    apply rule_ofFields
    exact fun options ho => hu.noRules (hmethod.of_mem_messages rfl ho)

end Annotated

/-- **Bytes without annotations are read, and no annotations are read from them**: where they are a
request whose messages are at most 99 levels below it, its annotations are read too. No field of
theirs is required, and no method has a rule. -/
theorem exists_bare_of_decode {bytes : List UInt8} {request : Descriptor.Request}
    (hd : Descriptor.Request.decode bytes = some request) (hu : Unannotated bytes)
    (hshallow : ∀ {level type fields},
      Entered Descriptor.wireSchema .request bytes level type fields → level ≤ 99) :
    ∃ annotations, Annotated.Request.decode bytes = some annotations ∧ annotations.IsBare := by
  obtain ⟨fields, hfields, -⟩ := Option.map_eq_some_iff.mp hd
  obtain ⟨hp, ha⟩ := Wire.decodeAs_eq_some_iff.mp hfields
  have haccepts : Wire.accepts Annotated.wireSchema Wire.nestingLimit .request fields :=
    Annotated.accepts_of_bare hu (fun he => Nat.lt_succ_of_le (hshallow he)) (Nat.zero_add _) rfl
      (.outermost hp) trivial ha
  refine ⟨.ofFields fields, ?_, Annotated.isBare_ofFields hu hp⟩
  unfold Annotated.Request.decode
  rw [Wire.decodeAs_eq_some_iff.mpr ⟨hp, haccepts⟩, Option.map_some]

theorem unannotated_of_entries {bytes : List UInt8} {fields : List Wire.Field}
    (hp : Wire.parse bytes = some fields)
    (ha : Wire.accepts Descriptor.wireSchema Wire.nestingLimit .request fields)
    (hbehaviors : ∀ e ∈ Wire.entries Descriptor.wireSchema Wire.nestingLimit 0 .request fields,
      e.2.1 = .message → ∀ field ∈ Wire.messages 2 e.2.2, ∀ options ∈ Wire.messages 8 field,
        ∀ f ∈ options, f.number ≠ Annotated.behaviorField)
    (hrules : ∀ e ∈ Wire.entries Descriptor.wireSchema Wire.nestingLimit 0 .request fields,
      e.2.1 = .methodOptions → ∀ f ∈ e.2.2, f.number ≠ Annotated.ruleField) :
    Unannotated bytes where
  noBehaviors he := hbehaviors _ (Wire.mem_entries_of_entered hp ha he) rfl
  noRules he := hrules _ (Wire.mem_entries_of_entered hp ha he) rfl

/-- Options of a field: a known one, and an unknown group that has a field of the number of
behaviours inside. -/
def plainOptions : List UInt8 :=
  Wire.varintField 3 1 ++ Wire.Varint.encode (2000 * 8 + 3) ++
    Wire.varintField Annotated.behaviorField 2 ++ Wire.Varint.encode (2000 * 8 + 4)

/-- A file with nested messages, with an extension that has behaviours, as no field of a message
has, and with a service. Much of it is passed over when it is read for annotations. -/
def plainBytes : List UInt8 :=
  Wire.textField 1 "p.proto" ++
  Wire.bytesField 15 (Wire.textField 1 "p.proto" ++
    Wire.bytesField 4 (Wire.textField 1 "Point" ++
      Wire.bytesField 2 (Wire.textField 1 "x" ++ Wire.bytesField 8 plainOptions) ++
      Wire.bytesField 3 (Wire.textField 1 "Inner" ++
        Wire.bytesField 2 (Wire.textField 1 "y" ++ Wire.bytesField 8 plainOptions))) ++
    Wire.bytesField 7 (Wire.textField 1 "mark" ++
      Wire.bytesField 8 (Wire.varintField Annotated.behaviorField 2)) ++
    Wire.bytesField 6 (Wire.textField 1 "Points" ++
      Wire.bytesField 2 (Wire.textField 1 "Move" ++
        Wire.bytesField 4 (Wire.varintField 33 1))) ++
    Wire.bytesField 9 (Wire.bytesField 1 (Wire.bytesField 1 [4, 0])))

theorem exists_bare_plainBytes : ∃ request annotations,
    Descriptor.Request.decode plainBytes = some request ∧ Unannotated plainBytes ∧
    (∀ {level type fields},
      Entered Descriptor.wireSchema .request plainBytes level type fields → level ≤ 99) ∧
    Annotated.Request.decode plainBytes = some annotations ∧ annotations.IsBare := by
  obtain ⟨request, hd⟩ : ∃ request, Descriptor.Request.decode plainBytes = some request :=
    Option.isSome_iff_exists.mp (by decide +kernel)
  have hp : Wire.parse plainBytes = some ((Wire.parse plainBytes).getD []) := by decide +kernel
  have ha : Wire.accepts Descriptor.wireSchema Wire.nestingLimit .request
      ((Wire.parse plainBytes).getD []) := by decide +kernel
  have hu : Unannotated plainBytes :=
    unannotated_of_entries hp ha (by decide +kernel) (by decide +kernel)
  have hlevels : ∀ e ∈ Wire.entries Descriptor.wireSchema Wire.nestingLimit 0 .request
      ((Wire.parse plainBytes).getD []), e.1 ≤ 99 := by decide +kernel
  have hshallow : ∀ {level type fields},
      Entered Descriptor.wireSchema .request plainBytes level type fields → level ≤ 99 :=
    fun he => hlevels _ (Wire.mem_entries_of_entered hp ha he)
  obtain ⟨annotations, hdecode, hbare⟩ := exists_bare_of_decode hd hu hshallow
  exact ⟨request, annotations, hd, hu, hshallow, hdecode, hbare⟩

end RestScaffold
