import RestScaffold.Annotated.OnWire
import RestScaffold.Proofs.WireContents
import RestScaffold.Proofs.Writing

/-! # Annotations written and read

Annotations that are written as a message are read back as they were.

* `Request.encode`: the bytes of the annotations of a request;
* `Request.levels`: the levels of messages in them;
* `Request.sendable`: the schema accepts them, if they have no more levels than are allowed;
* `Message.ofFields_wireFields`, `ruleOfFields_wireFields`: messages and rules, which are nested in
  each other, are read back at any limit that leaves room for the levels below them;
* `decode_encode_of_levels_le`: the round trip. -/

namespace RestScaffold.Annotated

open Http (Pattern Rule Verb)
open Wire (Schema IsNumber Fits Sendable levelsOf present)

/-! ### Writing

A text that may be absent is written when it is there, be it empty; one that may not is left out
when it is empty. The path of a pattern is written in either case. -/

/-- The fields of the options of a field: its behaviours, one in each. -/
def FieldOptions.wireFields (o : FieldOptions) : List Wire.Field :=
  (o.behaviors.map Wire.ofInt32).map (.int behaviorField)

/-- The fields of a field. -/
def Field.wireFields (f : Field) : List Wire.Field :=
  f.options.toList.map fun o => .message 8 o.wireFields

mutual

/-- The fields of a message. -/
def Message.wireFields : Message → List Wire.Field
  | m@{ nested, .. } =>
    (m.fields.map fun f => .message 2 f.wireFields) ++ Message.nestedWireFields nested

/-- Messages as the fields of the one that they are nested in. -/
def Message.nestedWireFields : List Message → List Wire.Field
  | [] => []
  | m :: ms => .message 3 m.wireFields :: Message.nestedWireFields ms

end

/-- The fields of a custom pattern. -/
def customWireFields (name path : String) : List Wire.Field :=
  (present name).map (.text 1) ++ (present path).map (.text 2)

/-- A pattern as a field of its rule; the verb decides on the number. -/
def patternWireField (p : Pattern) : Wire.Field :=
  match p.verb with
  | .get => .text 2 p.path
  | .put => .text 3 p.path
  | .post => .text 4 p.path
  | .delete => .text 5 p.path
  | .patch => .text 6 p.path
  | .custom name => .message 8 (customWireFields name p.path)

mutual

/-- The fields of a rule. -/
def ruleWireFields : Rule → List Wire.Field
  | r@{ additionalBindings, .. } =>
    (present r.selector).map (.text 1) ++ r.pattern.toList.map patternWireField ++
      (present r.body).map (.text 7) ++ bindingWireFields additionalBindings ++
      (present r.responseBody).map (.text 12)

/-- Additional bindings as fields of their rule. -/
def bindingWireFields : List Rule → List Wire.Field
  | [] => []
  | r :: rs => .message 11 (ruleWireFields r) :: bindingWireFields rs

end

/-- The fields of the options of a method. -/
def MethodOptions.wireFields (o : MethodOptions) : List Wire.Field :=
  o.rule.toList.map fun r => .message ruleField (ruleWireFields r)

/-- The fields of a method. -/
def Method.wireFields (m : Method) : List Wire.Field :=
  m.options.toList.map fun o => .message 4 o.wireFields

/-- The fields of a service. -/
def Service.wireFields (s : Service) : List Wire.Field :=
  s.methods.map fun m => .message 2 m.wireFields

/-- The fields of a file. -/
def File.wireFields (f : File) : List Wire.Field :=
  f.name?.toList.map (.text 1) ++ (f.messages.map fun m => .message 4 m.wireFields) ++
    f.services.map fun s => .message 6 s.wireFields

/-- The fields of a request. -/
def Request.wireFields (a : Request) : List Wire.Field :=
  a.files.map fun f => .message 15 f.wireFields

/-- The bytes of the annotations of a request. -/
def Request.encode (a : Request) : List UInt8 :=
  Wire.write a.wireFields

theorem Message.nestedWireFields_eq : ∀ ms : List Message,
    Message.nestedWireFields ms = ms.map fun m => .message 3 m.wireFields
  | [] => rfl
  | m :: ms => by rw [Message.nestedWireFields, Message.nestedWireFields_eq ms, List.map_cons]

theorem Message.wireFields_eq (m : Message) : m.wireFields =
    (m.fields.map fun f => .message 2 f.wireFields) ++
      m.nested.map fun n => .message 3 n.wireFields := by
  cases m with
  | mk fields nested => rw [Message.wireFields, Message.nestedWireFields_eq]

theorem bindingWireFields_eq : ∀ rs : List Rule,
    bindingWireFields rs = rs.map fun r => .message 11 (ruleWireFields r)
  | [] => rfl
  | r :: rs => by rw [bindingWireFields, bindingWireFields_eq rs, List.map_cons]

theorem ruleWireFields_eq (r : Rule) : ruleWireFields r =
    (present r.selector).map (.text 1) ++ r.pattern.toList.map patternWireField ++
      (present r.body).map (.text 7) ++
      (r.additionalBindings.map fun b => .message 11 (ruleWireFields b)) ++
      (present r.responseBody).map (.text 12) := by
  cases r
  rw [ruleWireFields, bindingWireFields_eq]

/-! ### Levels

The levels of messages that are below one: none for options of fields, which hold numbers only. -/

/-- The levels below a field. -/
def Field.levels (f : Field) : Nat :=
  levelsOf (fun _ => 0) f.options.toList

mutual

/-- The levels below a message. -/
def Message.levels : Message → Nat
  | m@{ nested, .. } => max (levelsOf Field.levels m.fields) (Message.nestedLevels nested)

/-- The levels of messages that are nested in one. -/
def Message.nestedLevels : List Message → Nat
  | [] => 0
  | m :: ms => max (m.levels + 1) (Message.nestedLevels ms)

end

/-- The levels of a pattern: a custom one is a message. -/
def patternLevels (p : Pattern) : Nat :=
  match p.verb with
  | .custom _ => 1
  | _ => 0

mutual

/-- The levels below a rule. -/
def ruleLevels : Rule → Nat
  | r@{ additionalBindings, .. } =>
    max (r.pattern.elim 0 patternLevels) (bindingLevels additionalBindings)

/-- The levels of additional bindings. -/
def bindingLevels : List Rule → Nat
  | [] => 0
  | r :: rs => max (ruleLevels r + 1) (bindingLevels rs)

end

/-- The levels below the options of a method. -/
def MethodOptions.levels (o : MethodOptions) : Nat :=
  levelsOf ruleLevels o.rule.toList

/-- The levels below a method. -/
def Method.levels (m : Method) : Nat :=
  levelsOf MethodOptions.levels m.options.toList

/-- The levels below a service. -/
def Service.levels (s : Service) : Nat :=
  levelsOf Method.levels s.methods

/-- The levels below a file. -/
def File.levels (f : File) : Nat :=
  max (levelsOf Message.levels f.messages) (levelsOf Service.levels f.services)

/-- The levels below a request. -/
def Request.levels (a : Request) : Nat :=
  levelsOf File.levels a.files

theorem Message.nestedLevels_eq : ∀ ms : List Message,
    Message.nestedLevels ms = levelsOf Message.levels ms
  | [] => rfl
  | m :: ms => by rw [Message.nestedLevels, Message.nestedLevels_eq ms, levelsOf]

theorem Message.levels_le_iff {m : Message} {limit : Nat} : m.levels ≤ limit ↔
    levelsOf Field.levels m.fields ≤ limit ∧ levelsOf Message.levels m.nested ≤ limit := by
  cases m with
  | mk fields nested => rw [Message.levels, Message.nestedLevels_eq, Nat.max_le]

theorem bindingLevels_eq : ∀ rs : List Rule, bindingLevels rs = levelsOf ruleLevels rs
  | [] => rfl
  | r :: rs => by rw [bindingLevels, bindingLevels_eq rs, levelsOf]

theorem ruleLevels_le_iff {r : Rule} {limit : Nat} : ruleLevels r ≤ limit ↔
    r.pattern.elim 0 patternLevels ≤ limit ∧ levelsOf ruleLevels r.additionalBindings ≤ limit := by
  cases r
  rw [ruleLevels, bindingLevels_eq, Nat.max_le]

/-! ### Acceptance -/

theorem numbered_wireSchema : Schema.Numbered wireSchema := by
  intro type p hp
  unfold IsNumber
  cases type <;> simp only [wireSchema, List.mem_cons, List.not_mem_nil, or_false] at hp <;>
    rcases hp with rfl | rfl | rfl | rfl | rfl | rfl | rfl | rfl | rfl | rfl <;> decide

variable {limit : Nat}

theorem FieldOptions.sendable (o : FieldOptions) :
    Sendable wireSchema limit .fieldOptions o.wireFields := by
  apply Wire.sendable_numbers numbered_wireSchema rfl
  rw [List.forall_mem_map]
  exact fun b _ => Wire.ofInt32_lt b

theorem Field.sendable {f : Field} (hl : f.levels ≤ limit) (hf : Fits f.wireFields) :
    Sendable wireSchema limit .field f.wireFields :=
  Wire.sendable_messages numbered_wireSchema rfl hl hf fun o _ _ _ _ _ => o.sendable

/-- A message is sendable with as many levels as are below it: those nested in it have one less. -/
theorem Message.sendable {m : Message} (hl : m.levels ≤ limit) (hf : Fits m.wireFields) :
    Sendable wireSchema limit .message m.wireFields := by
  -- Any smaller limit may be left for a nested message, not only the next one.
  induction limit using Nat.strongRecOn generalizing m with
  | ind limit ih =>
      obtain ⟨hfields, hnested⟩ := Message.levels_le_iff.mp hl
      rw [Message.wireFields_eq] at hf ⊢
      apply Sendable.append
      · apply Wire.sendable_messages numbered_wireSchema rfl hfields hf.left
        exact fun f _ further _ hl hf => f.sendable hl hf
      · apply Wire.sendable_messages numbered_wireSchema rfl hnested hf.right
        exact fun n _ further hlt hl hf => ih further hlt hl hf

theorem sendable_custom (name path : String) :
    Sendable wireSchema limit .customPattern (customWireFields name path) := by
  apply Sendable.append
  · exact Wire.sendable_texts numbered_wireSchema rfl _
  · exact Wire.sendable_texts numbered_wireSchema rfl _

theorem sendable_pattern {p : Pattern} (hl : patternLevels p ≤ limit)
    (hf : Fits [patternWireField p]) : Sendable wireSchema limit .rule [patternWireField p] := by
  obtain ⟨verb, path⟩ := p
  have htext : ∀ number, (wireSchema .rule).lookup number = some .text →
      Sendable wireSchema limit .rule ([path].map (.text number)) :=
    fun _ hk => Wire.sendable_texts numbered_wireSchema hk _
  cases verb with
  | custom name =>
      have hlevels : levelsOf (fun _ => 0) [(name, path)] ≤ limit := hl
      have hmessage : Sendable wireSchema limit .rule
          ([(name, path)].map fun q => .message 8 (customWireFields q.1 q.2)) :=
        Wire.sendable_messages numbered_wireSchema rfl hlevels hf
          fun q _ _ _ _ _ => sendable_custom q.1 q.2
      exact hmessage
  | get => exact htext 2 rfl
  | put => exact htext 3 rfl
  | post => exact htext 4 rfl
  | delete => exact htext 5 rfl
  | patch => exact htext 6 rfl

theorem sendable_rule {r : Rule} (hl : ruleLevels r ≤ limit) (hf : Fits (ruleWireFields r)) :
    Sendable wireSchema limit .rule (ruleWireFields r) := by
  induction limit using Nat.strongRecOn generalizing r with
  | ind limit ih =>
      obtain ⟨hpattern, hbindings⟩ := ruleLevels_le_iff.mp hl
      rw [ruleWireFields_eq] at hf ⊢
      have htexts : ∀ number s, (wireSchema .rule).lookup number = some .text →
          Sendable wireSchema limit .rule ((present s).map (.text number)) :=
        fun _ _ hk => Wire.sendable_texts numbered_wireSchema hk _
      have hone : Sendable wireSchema limit .rule (r.pattern.toList.map patternWireField) := by
        have hfits := hf.left.left.left.right
        cases hp : r.pattern with
        | none => exact Wire.sendable_nil
        | some p =>
            rw [hp] at hpattern hfits
            exact sendable_pattern hpattern hfits
      -- The bindings are rules themselves, further down.
      have hmore : Sendable wireSchema limit .rule
          (r.additionalBindings.map fun b => .message 11 (ruleWireFields b)) := by
        apply Wire.sendable_messages numbered_wireSchema rfl hbindings hf.left.right
        exact fun b _ further hlt hl hf => ih further hlt hl hf
      exact ((((htexts 1 _ rfl).append hone).append (htexts 7 _ rfl)).append hmore).append
        (htexts 12 _ rfl)

theorem MethodOptions.sendable {o : MethodOptions} (hl : o.levels ≤ limit)
    (hf : Fits o.wireFields) : Sendable wireSchema limit .methodOptions o.wireFields :=
  Wire.sendable_messages numbered_wireSchema rfl hl hf fun _ _ _ _ hl hf => sendable_rule hl hf

theorem Method.sendable {m : Method} (hl : m.levels ≤ limit) (hf : Fits m.wireFields) :
    Sendable wireSchema limit .method m.wireFields :=
  Wire.sendable_messages numbered_wireSchema rfl hl hf fun _ _ _ _ hl hf =>
    MethodOptions.sendable hl hf

theorem Service.sendable {s : Service} (hl : s.levels ≤ limit) (hf : Fits s.wireFields) :
    Sendable wireSchema limit .service s.wireFields :=
  Wire.sendable_messages numbered_wireSchema rfl hl hf fun _ _ _ _ hl hf => Method.sendable hl hf

theorem File.sendable {f : File} (hl : f.levels ≤ limit) (hf : Fits f.wireFields) :
    Sendable wireSchema limit .file f.wireFields := by
  obtain ⟨hmessages, hservices⟩ := Nat.max_le.mp hl
  apply Sendable.append
  · apply Sendable.append
    · exact Wire.sendable_texts numbered_wireSchema rfl _
    · apply Wire.sendable_messages numbered_wireSchema rfl hmessages hf.left.right
      exact fun _ _ _ _ hl hf => Message.sendable hl hf
  · apply Wire.sendable_messages numbered_wireSchema rfl hservices hf.right
    exact fun _ _ _ _ hl hf => Service.sendable hl hf

theorem Request.sendable {a : Request} (hl : a.levels ≤ limit) (hf : Fits a.wireFields) :
    Sendable wireSchema limit .request a.wireFields :=
  Wire.sendable_messages numbered_wireSchema rfl hl hf fun _ _ _ _ hl hf => File.sendable hl hf

/-! ### Reading -/

theorem nil_of_levelsOf {α : Type} {levels : α → Nat} {xs : List α} (h : levelsOf levels xs ≤ 0) :
    xs = [] := by
  apply List.eq_nil_iff_forall_not_mem.mpr
  intro x hx
  exact absurd (Wire.levelsOf_le_iff.mp h x hx) (by omega)

theorem FieldOptions.ofFields_wireFields (o : FieldOptions) :
    FieldOptions.ofFields o.wireFields = o := by
  have hnumbers : Wire.numbers behaviorField o.wireFields = o.behaviors.map Wire.ofInt32 := by
    apply Wire.numbers_eq
    exact Wire.valuesOf_ints behaviorField behaviorField _
  have hints : Wire.ints behaviorField o.wireFields = o.behaviors := by
    unfold Wire.ints
    rw [hnumbers, List.map_map]
    exact (List.map_congr_left fun b _ => Wire.int32_ofInt32 b).trans (List.map_id _)
  unfold FieldOptions.ofFields
  rw [hints]

theorem Field.ofFields_wireFields {f : Field} (hf : Fits f.wireFields) :
    Field.ofFields f.wireFields = f := by
  have hoptions : (Wire.message? 8 f.wireFields).map FieldOptions.ofFields = f.options := by
    apply Wire.map_message?_eq (Wire.valuesOf_messages 8 8) (Nat.le_refl f.levels) hf
    · exact fun o _ => o.sendable
    · exact fun o _ _ => o.ofFields_wireFields
  unfold Field.ofFields
  rw [hoptions]

theorem Message.valuesOf_wireFields (number : Nat) (m : Message) :
    Wire.valuesOf number m.wireFields =
      (if 2 = number then m.fields.map fun f => .bytes (Wire.write f.wireFields) else []) ++
        (if 3 = number then m.nested.map fun n => .bytes (Wire.write n.wireFields) else []) := by
  rw [Message.wireFields_eq, Wire.valuesOf_append, Wire.valuesOf_messages, Wire.valuesOf_messages]

theorem Message.map_fields_wireFields {m : Message} (hf : Fits m.wireFields) :
    (Wire.messages 2 m.wireFields).map Field.ofFields = m.fields := by
  have hvalues := m.valuesOf_wireFields 2
  rw [Message.wireFields_eq] at hf
  apply Wire.map_messages_eq (by simpa using hvalues) (Nat.le_refl (levelsOf Field.levels _))
    hf.left
  · exact fun _ hf => Field.sendable (Nat.le_refl _) hf
  · exact fun _ _ hf => Field.ofFields_wireFields hf

/-- A message is read back at any limit that leaves room for the levels below it. -/
theorem Message.ofFields_wireFields {limit : Nat} {m : Message} (hl : m.levels ≤ limit)
    (hf : Fits m.wireFields) : Message.ofFields limit m.wireFields = m := by
  induction limit generalizing m with
  | zero =>
      -- The reader leaves nested messages out, and there are none.
      obtain ⟨-, hlevels⟩ := Message.levels_le_iff.mp hl
      have hnone : m.nested = [] := nil_of_levelsOf hlevels
      rw [Message.ofFields, Message.map_fields_wireFields hf]
      cases m
      simpa using hnone.symm
  | succ limit ih =>
      obtain ⟨-, hlevels⟩ := Message.levels_le_iff.mp hl
      have hnested : (Wire.messages 3 m.wireFields).map (Message.ofFields limit) = m.nested := by
        have hfits := hf
        rw [Message.wireFields_eq] at hfits
        apply Wire.map_messages_eq (by simpa using m.valuesOf_wireFields 3) hlevels hfits.right
        · exact fun _ hf => Message.sendable (Nat.le_refl _) hf
        · exact fun _ hlt hf => ih (Nat.le_of_lt_succ hlt) hf
      rw [Message.ofFields, Message.map_fields_wireFields hf, hnested]
      cases m
      rfl

theorem customPattern_customWireFields (name path : String) :
    customPattern none (customWireFields name path) = ⟨.custom name, path⟩ := by
  have hvalues : ∀ number, Wire.valuesOf number (customWireFields name path) =
      (if 1 = number then (present name).map fun s => .bytes (Wire.utf8 s) else []) ++
        (if 2 = number then (present path).map fun s => .bytes (Wire.utf8 s) else []) := by
    intro number
    unfold customWireFields
    rw [Wire.valuesOf_append, Wire.valuesOf_texts, Wire.valuesOf_texts]
  have hname : Wire.text 1 (customWireFields name path) = name :=
    Wire.text_eq (by simpa using hvalues 1)
  have hpath : Wire.text 2 (customWireFields name path) = path :=
    Wire.text_eq (by simpa using hvalues 2)
  unfold customPattern
  rw [hname, hpath]

/-- Is it the number of a field of a rule that holds a pattern? -/
def isPatternNumber (number : Nat) : Bool :=
  number == 8 || (verbOf? number).isSome

theorem isPatternNumber_patternWireField (p : Pattern) :
    isPatternNumber (patternWireField p).number = true := by
  obtain ⟨verb, path⟩ := p
  cases verb <;> rfl

theorem patternAfter_patternWireField {p : Pattern} (hf : Fits [patternWireField p]) :
    patternAfter none (patternWireField p) = some p := by
  obtain ⟨verb, path⟩ := p
  have htext : ∀ number verb, number ≠ 8 → verbOf? number = some verb →
      patternAfter none (.text number path) = some ⟨verb, path⟩ := by
    intro number verb hcustom hverb
    have hnumber : (Wire.Field.text number path).number = number := rfl
    have hpath : (Wire.Field.text number path).value.text? = some path := Wire.text?_utf8 path
    unfold patternAfter
    rw [hnumber, if_neg hcustom, hverb, hpath]
  cases verb with
  | custom name =>
      have hone : Fits ([(name, path)].map fun q => .message 8 (customWireFields q.1 q.2)) := hf
      have hfits : Fits (customWireFields name path) := hone.of_mem List.mem_cons_self
      have hs : Sendable wireSchema 0 .customPattern (customWireFields name path) :=
        sendable_custom name path
      have hnumber : (patternWireField ⟨.custom name, path⟩).number = 8 := rfl
      have hmessage : (patternWireField ⟨.custom name, path⟩).value.message? =
          some (customWireFields name path) := hs.parse_write hfits
      unfold patternAfter
      rw [if_pos hnumber, hmessage, ← customPattern_customWireFields]
  | get => exact htext 2 .get (by decide) rfl
  | put => exact htext 3 .put (by decide) rfl
  | post => exact htext 4 .post (by decide) rfl
  | delete => exact htext 5 .delete (by decide) rfl
  | patch => exact htext 6 .patch (by decide) rfl

theorem foldl_patternAfter {fields : List Wire.Field}
    (h : ∀ f ∈ fields, isPatternNumber f.number = false) (before : Option Pattern) :
    fields.foldl patternAfter before = before := by
  induction fields with
  | nil => rfl
  | cons f fs ih =>
      obtain ⟨hfirst, hrest⟩ := List.forall_mem_cons.mp h
      obtain ⟨hcustom, hverb⟩ : f.number ≠ 8 ∧ verbOf? f.number = none := by
        simpa [isPatternNumber] using hfirst
      have hf : patternAfter before f = before := by
        unfold patternAfter
        rw [if_neg hcustom, hverb]
      rw [List.foldl_cons, hf, ih hrest]

/-- The pattern of a rule is that of the one field that holds a pattern. -/
theorem foldl_patternAfter_ruleWireFields {r : Rule} (hf : Fits (ruleWireFields r)) :
    (ruleWireFields r).foldl patternAfter none = r.pattern := by
  have htexts : ∀ number before s, isPatternNumber number = false →
      ((present s).map (.text number)).foldl patternAfter before = before := by
    intro number before s hn
    exact foldl_patternAfter (List.forall_mem_map.mpr fun _ _ => hn) before
  have hbindings : ∀ before, (r.additionalBindings.map fun b =>
      .message 11 (ruleWireFields b)).foldl patternAfter before = before :=
    foldl_patternAfter (List.forall_mem_map.mpr fun _ _ => rfl)
  have hpattern : (r.pattern.toList.map patternWireField).foldl patternAfter none = r.pattern := by
    rw [ruleWireFields_eq] at hf
    have hfits := hf.left.left.left.right
    cases hp : r.pattern with
    | none => rfl
    | some p =>
        rw [hp] at hfits
        exact patternAfter_patternWireField hfits
  rw [ruleWireFields_eq]
  simp only [List.foldl_append]
  rw [htexts 1 _ _ rfl, hpattern, htexts 7 _ _ rfl, hbindings, htexts 12 _ _ rfl]

theorem valuesOf_ruleWireFields {number : Nat} (hn : isPatternNumber number = false) (r : Rule) :
    Wire.valuesOf number (ruleWireFields r) =
      (if 1 = number then (present r.selector).map fun s => .bytes (Wire.utf8 s) else []) ++
        (if 7 = number then (present r.body).map fun s => .bytes (Wire.utf8 s) else []) ++
        (if 11 = number then
          r.additionalBindings.map fun b => .bytes (Wire.write (ruleWireFields b)) else []) ++
        (if 12 = number then
          (present r.responseBody).map fun s => .bytes (Wire.utf8 s) else []) := by
  have hpattern : Wire.valuesOf number (r.pattern.toList.map patternWireField) = [] := by
    apply Wire.valuesOf_eq_nil
    rw [List.forall_mem_map]
    rintro p - rfl
    exact absurd (isPatternNumber_patternWireField p) (by simp [hn])
  rw [ruleWireFields_eq]
  simp only [Wire.valuesOf_append, Wire.valuesOf_texts, Wire.valuesOf_messages, hpattern,
    List.append_nil]

theorem texts_ruleWireFields (r : Rule) : Wire.text 1 (ruleWireFields r) = r.selector ∧
    Wire.text 7 (ruleWireFields r) = r.body ∧
    Wire.text 12 (ruleWireFields r) = r.responseBody := by
  refine ⟨Wire.text_eq ?_, Wire.text_eq ?_, Wire.text_eq ?_⟩
  · simpa using valuesOf_ruleWireFields (show isPatternNumber 1 = false from rfl) r
  · simpa using valuesOf_ruleWireFields (show isPatternNumber 7 = false from rfl) r
  · simpa using valuesOf_ruleWireFields (show isPatternNumber 12 = false from rfl) r

/-- A rule is read back at any limit that leaves room for the levels below it. -/
theorem ruleOfFields_wireFields {limit : Nat} {r : Rule} (hl : ruleLevels r ≤ limit)
    (hf : Fits (ruleWireFields r)) : ruleOfFields limit (ruleWireFields r) = r := by
  induction limit generalizing r with
  | zero =>
      obtain ⟨hselector, hbody, hresponse⟩ := texts_ruleWireFields r
      obtain ⟨-, hlevels⟩ := ruleLevels_le_iff.mp hl
      have hnone : r.additionalBindings = [] := nil_of_levelsOf hlevels
      rw [ruleOfFields, hselector, hbody, hresponse, foldl_patternAfter_ruleWireFields hf]
      cases r
      simpa using hnone.symm
  | succ limit ih =>
      obtain ⟨hselector, hbody, hresponse⟩ := texts_ruleWireFields r
      obtain ⟨-, hlevels⟩ := ruleLevels_le_iff.mp hl
      have hbindings : (Wire.messages 11 (ruleWireFields r)).map (ruleOfFields limit) =
          r.additionalBindings := by
        have hvalues := valuesOf_ruleWireFields (show isPatternNumber 11 = false from rfl) r
        have hfits := hf
        rw [ruleWireFields_eq] at hfits
        apply Wire.map_messages_eq (by simpa using hvalues) hlevels hfits.left.right
        · exact fun _ hf => sendable_rule (Nat.le_refl _) hf
        · exact fun _ hlt hf => ih (Nat.le_of_lt_succ hlt) hf
      rw [ruleOfFields, hselector, hbody, hresponse, foldl_patternAfter_ruleWireFields hf,
        hbindings]
      cases r
      rfl

theorem MethodOptions.ofFields_wireFields {limit : Nat} {o : MethodOptions}
    (hl : o.levels ≤ limit) (hf : Fits o.wireFields) :
    MethodOptions.ofFields limit o.wireFields = o := by
  have hrule : (Wire.message? ruleField o.wireFields).map (ruleOfFields limit) = o.rule := by
    apply Wire.map_message?_eq (Wire.valuesOf_messages ruleField ruleField) hl hf
    · exact fun _ hf => sendable_rule (Nat.le_refl _) hf
    · exact fun _ hlt hf => ruleOfFields_wireFields (Nat.le_of_lt hlt) hf
  unfold MethodOptions.ofFields
  rw [hrule]

theorem Method.ofFields_wireFields {limit : Nat} {m : Method} (hl : m.levels ≤ limit)
    (hf : Fits m.wireFields) : Method.ofFields limit m.wireFields = m := by
  have hoptions : (Wire.message? 4 m.wireFields).map (MethodOptions.ofFields limit) =
      m.options := by
    apply Wire.map_message?_eq (Wire.valuesOf_messages 4 4) hl hf
    · exact fun _ hf => MethodOptions.sendable (Nat.le_refl _) hf
    · exact fun _ hlt hf => MethodOptions.ofFields_wireFields (Nat.le_of_lt hlt) hf
  unfold Method.ofFields
  rw [hoptions]

theorem Service.ofFields_wireFields {limit : Nat} {s : Service} (hl : s.levels ≤ limit)
    (hf : Fits s.wireFields) : Service.ofFields limit s.wireFields = s := by
  have hmethods : (Wire.messages 2 s.wireFields).map (Method.ofFields limit) = s.methods := by
    apply Wire.map_messages_eq (Wire.valuesOf_messages 2 2) hl hf
    · exact fun _ hf => Method.sendable (Nat.le_refl _) hf
    · exact fun _ hlt hf => Method.ofFields_wireFields (Nat.le_of_lt hlt) hf
  unfold Service.ofFields
  rw [hmethods]

theorem File.valuesOf_wireFields (number : Nat) (f : File) :
    Wire.valuesOf number f.wireFields =
      (if 1 = number then f.name?.toList.map fun s => .bytes (Wire.utf8 s) else []) ++
        (if 4 = number then f.messages.map fun m => .bytes (Wire.write m.wireFields) else []) ++
        (if 6 = number then f.services.map fun s => .bytes (Wire.write s.wireFields) else []) := by
  unfold File.wireFields
  rw [Wire.valuesOf_append, Wire.valuesOf_append, Wire.valuesOf_texts, Wire.valuesOf_messages,
    Wire.valuesOf_messages]

theorem File.ofFields_wireFields {limit : Nat} {f : File} (hl : f.levels ≤ limit)
    (hf : Fits f.wireFields) : File.ofFields limit f.wireFields = f := by
  obtain ⟨hmessages, hservices⟩ := Nat.max_le.mp hl
  have hname : Wire.textOf? 1 f.wireFields = f.name? :=
    Wire.textOf?_eq (by simpa using f.valuesOf_wireFields 1)
  have hms : (Wire.messages 4 f.wireFields).map (Message.ofFields limit) = f.messages := by
    apply Wire.map_messages_eq (by simpa using f.valuesOf_wireFields 4) hmessages hf.left.right
    · exact fun _ hf => Message.sendable (Nat.le_refl _) hf
    · exact fun _ hlt hf => Message.ofFields_wireFields (Nat.le_of_lt hlt) hf
  have hss : (Wire.messages 6 f.wireFields).map (Service.ofFields limit) = f.services := by
    apply Wire.map_messages_eq (by simpa using f.valuesOf_wireFields 6) hservices hf.right
    · exact fun _ hf => Service.sendable (Nat.le_refl _) hf
    · exact fun _ hlt hf => Service.ofFields_wireFields (Nat.le_of_lt hlt) hf
  unfold File.ofFields
  rw [hname, hms, hss]

/-- **Annotations that are written are read back**, if their messages have no more levels than a
decoder goes down. Lengths on the wire are numbers of 64 bits. -/
theorem decode_encode_of_levels_le {a : Request} (hl : a.levels ≤ Wire.nestingLimit)
    (hf : a.encode.length < 2 ^ 64) : Request.decode a.encode = some a := by
  have hs : Sendable wireSchema Wire.nestingLimit .request a.wireFields := Request.sendable hl hf
  have hdecode : Wire.decodeAs wireSchema .request a.encode = some a.wireFields :=
    Wire.decodeAs_eq_some_iff.mpr ⟨hs.parse_write hf, hs.accepted⟩
  have hfiles : (Wire.messages 15 a.wireFields).map (File.ofFields Wire.nestingLimit) =
      a.files := by
    apply Wire.map_messages_eq (Wire.valuesOf_messages 15 15) hl hf
    · exact fun _ hf => File.sendable (Nat.le_refl _) hf
    · exact fun _ hlt hf => File.ofFields_wireFields (Nat.le_of_lt hlt) hf
  unfold Request.decode
  rw [hdecode, Option.map_some, Request.ofFields, hfiles]

/-- A rule with an empty path, and with custom patterns in its bindings. -/
def cornerRule : Rule where
  selector := "prüfung.Find"
  pattern := some ⟨.get, ""⟩
  body := "*"
  additionalBindings :=
    [{ pattern := some ⟨.custom "HEAD", "/v1/\x7bname\x7d"⟩, responseBody := "reply" },
     { additionalBindings := [{ pattern := some ⟨.custom "", ""⟩ }, {}] }]

/-- A file without a name, and one whose name is empty. Options are empty or missing, and behaviours
are negative. -/
def cornerAnnotations : Request where
  files :=
    [{ messages := [{ fields := [{}, { options := some {} }], nested := [{ nested := [{}] }] }] },
     { name? := some ""
       messages := [{ fields := [{ options := some { behaviors := [2, -1, -2147483648] } }] }]
       services := [⟨[⟨none⟩, ⟨some {}⟩, ⟨some ⟨some cornerRule⟩⟩]⟩] }]

/-- The deepest message is the custom pattern of a binding of a binding. -/
theorem decode_encode_cornerAnnotations : cornerAnnotations.levels = 8 ∧
    cornerAnnotations.encode.length < 2 ^ 64 ∧
    Request.decode cornerAnnotations.encode = some cornerAnnotations := by
  have hlevels : cornerAnnotations.levels = 8 := by decide +kernel
  have hlength : cornerAnnotations.encode.length < 2 ^ 64 := by decide +kernel
  have hlimit : cornerAnnotations.levels ≤ Wire.nestingLimit := by
    rw [hlevels]
    decide
  exact ⟨hlevels, hlength, decode_encode_of_levels_le hlimit hlength⟩

end RestScaffold.Annotated
