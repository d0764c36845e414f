import RestScaffold.Proofs.IndexPath
import RestScaffold.Proofs.WireContents
import RestScaffold.Annotated.OnWire
import RestScaffold.Descriptor.OnWire

/-! # Two views of the same bytes

Descriptors and annotations are read from one run of bytes by two schemas. The two readers go in
step: whatever message one enters, the other enters at the same place.

* `InStep`: three lists that correspond element by element;
* `MessageViews`, `ServiceViews`, `FileViews`, `RequestViews`: both views of the same bytes, level
  by level;
* `requestViews_of_decode`: a request that both readers accept has both views;
* `Aligned`, `aligned_of_decode`: the views agree in length everywhere, and what stands at an index
  path in either was read from the same bytes. -/

namespace RestScaffold

/-! ### Lists in step -/

/-- Neither of the last two is there, or all three are and correspond. -/
def Together {α β γ : Type} (R : α → β → γ → Prop) (a : Option α) (b : Option β) (c : Option γ) :
    Prop :=
  (b = none ∧ c = none) ∨ ∃ x y z, a = some x ∧ b = some y ∧ c = some z ∧ R x y z

namespace Together

variable {α β γ δ : Type} {R : α → β → γ → Prop} {a : Option α} {b : Option β} {c : Option γ}

theorem map_eq {f : β → δ} {g : γ → δ} (h : Together R a b c)
    (hR : ∀ x y z, R x y z → f y = g z) : b.map f = c.map g := by
  rcases h with ⟨rfl, rfl⟩ | ⟨x, y, z, -, rfl, rfl, hr⟩
  · rfl
  · rw [Option.map_some, Option.map_some, hR x y z hr]

theorem bind {α' β' γ' : Type} {S : α' → β' → γ' → Prop} {f : α → Option α'} {g : β → Option β'}
    {k : γ → Option γ'} (h : Together R a b c)
    (hR : ∀ x y z, R x y z → Together S (f x) (g y) (k z)) :
    Together S (a.bind f) (b.bind g) (c.bind k) := by
  rcases h with ⟨rfl, rfl⟩ | ⟨x, y, z, rfl, rfl, rfl, hr⟩
  · exact Or.inl ⟨rfl, rfl⟩
  · exact hR x y z hr

end Together

/-- Three lists of one length whose elements correspond at every place. -/
inductive InStep {α β γ : Type} (R : α → β → γ → Prop) : List α → List β → List γ → Prop where
  | nil : InStep R [] [] []
  | cons {a b c as bs cs} : R a b c → InStep R as bs cs → InStep R (a :: as) (b :: bs) (c :: cs)

namespace InStep

variable {α β γ δ : Type} {R : α → β → γ → Prop}

theorem length_eq {as : List α} {bs : List β} {cs : List γ} (h : InStep R as bs cs) :
    bs.length = cs.length := by
  induction h with
  | nil => rfl
  | cons _ _ ih => simp [ih]

theorem getElem? {as : List α} {bs : List β} {cs : List γ} (h : InStep R as bs cs) :
    ∀ i : Nat, Together R as[i]? bs[i]? cs[i]? := by
  induction h with
  | nil => exact fun i => Or.inl ⟨rfl, rfl⟩
  | cons hr _ ih =>
      intro i
      cases i with
      | zero => exact Or.inr ⟨_, _, _, rfl, rfl, rfl, hr⟩
      | succ i => simpa using ih i

theorem map_of_forall₂ {P : α → δ → Prop} {f : δ → β} {g : δ → γ}
    (hR : ∀ a d, P a d → R a (f d) (g d)) {as : List α} {ds : List δ}
    (h : List.Forall₂ P as ds) : InStep R as (ds.map f) (ds.map g) := by
  induction h with
  | nil => exact InStep.nil
  | cons hp _ ih => exact InStep.cons (hR _ _ hp) ih

end InStep

open Wire (parse payloads payloadAt accepts accepts_messages)

/-! ### Views -/

/-- Both views of a field. -/
def FieldViews (bytes : List UInt8) (d : Descriptor.Field) (a : Annotated.Field) : Prop :=
  ∃ fields, parse bytes = some fields ∧ d = .ofFields fields ∧ a = .ofFields fields

/-- Both views of a message: its fields and nested messages are read from the same inner bytes. -/
inductive MessageViews : List UInt8 → Descriptor.Message → Annotated.Message → Prop where
  | read {bytes : List UInt8} {fields : List Wire.Field} {d : Descriptor.Message}
      {a : Annotated.Message} (parsed : parse bytes = some fields)
      (below : InStep FieldViews (payloads 2 fields) d.fields a.fields)
      (nested : InStep MessageViews (payloads 3 fields) d.nested a.nested) :
      MessageViews bytes d a

/-- Both views of a method. The levels that are left bound the rules of the annotation only. -/
def MethodViews (bytes : List UInt8) (d : Descriptor.Method) (a : Annotated.Method) : Prop :=
  ∃ fields limit, parse bytes = some fields ∧ d = .ofFields fields ∧ a = .ofFields limit fields

/-- Both views of a service. -/
def ServiceViews (bytes : List UInt8) (d : Descriptor.Service) (a : Annotated.Service) : Prop :=
  ∃ fields, parse bytes = some fields ∧
    InStep MethodViews (payloads 2 fields) d.methods a.methods

/-- Both views of a file. -/
def FileViews (bytes : List UInt8) (d : Descriptor.File) (a : Annotated.File) : Prop :=
  ∃ fields, parse bytes = some fields ∧ d.name? = a.name? ∧
    InStep MessageViews (payloads 4 fields) d.messages a.messages ∧
    InStep ServiceViews (payloads 6 fields) d.services a.services

/-- Both views of a request. -/
def RequestViews (bytes : List UInt8) (r : Descriptor.Request) (a : Annotated.Request) : Prop :=
  ∃ fields, parse bytes = some fields ∧ InStep FileViews (payloads 15 fields) r.files a.files

/-! ### The readers go in step -/

/-- The induction is on the levels that the readers may enter; acceptance allows no more. -/
theorem messageViews_ofFields : ∀ {limit further : Nat} {bytes : List UInt8}
    {fields : List Wire.Field}, parse bytes = some fields →
    accepts Annotated.wireSchema further .message fields → further ≤ limit →
      MessageViews bytes (.ofFields limit fields) (.ofFields limit fields)
  | limit, further, bytes, fields, hp, ha, hle => by
      have hfields := accepts_messages 2 ha rfl
      have hnested := accepts_messages 3 ha rfl
      refine MessageViews.read hp ?_ ?_
      · rw [Descriptor.Message.ofFields.eq_def, Annotated.Message.ofFields.eq_def]
        refine InStep.map_of_forall₂ ?_ hfields
        intro bs fs h
        exact ⟨fs, h.1, rfl, rfl⟩
      · cases limit with
        | zero =>
            obtain rfl : further = 0 := Nat.le_zero.mp hle
            rw [Wire.payloads_of_accepts_zero ha rfl]
            exact InStep.nil
        | succ limit =>
            refine InStep.map_of_forall₂ ?_ hnested
            intro bs fs h
            obtain ⟨hparse, below, rfl, hbelow⟩ := h
            have hlt : below ≤ limit := by omega
            exact messageViews_ofFields hparse hbelow hlt

theorem serviceViews_ofFields {further limit : Nat} {bytes : List UInt8}
    {fields : List Wire.Field} (hp : parse bytes = some fields)
    (ha : accepts Annotated.wireSchema further .service fields) :
    ServiceViews bytes (.ofFields fields) (.ofFields limit fields) := by
  have hmethods := accepts_messages 2 ha rfl
  refine ⟨fields, hp, InStep.map_of_forall₂ ?_ hmethods⟩
  intro bs fs h
  exact ⟨fs, limit, h.1, rfl, rfl⟩

theorem fileViews_ofFields {further limit : Nat} {bytes : List UInt8} {fields : List Wire.Field}
    (hp : parse bytes = some fields) (ha : accepts Annotated.wireSchema further .file fields)
    (hle : further ≤ limit) : FileViews bytes (.ofFields limit fields) (.ofFields limit fields) := by
  have hmessages := accepts_messages 4 ha rfl
  have hservices := accepts_messages 6 ha rfl
  refine ⟨fields, hp, rfl, ?_, ?_⟩
  · refine InStep.map_of_forall₂ ?_ hmessages
    intro bs fs h
    obtain ⟨hparse, below, rfl, hbelow⟩ := h
    have hlt : below ≤ limit := by omega
    exact messageViews_ofFields hparse hbelow hlt
  · refine InStep.map_of_forall₂ ?_ hservices
    intro bs fs h
    obtain ⟨hparse, below, -, hbelow⟩ := h
    exact serviceViews_ofFields hparse hbelow

/-- A request that both readers accept is read in step. -/
theorem requestViews_of_decode {bytes : List UInt8} {r : Descriptor.Request}
    {a : Annotated.Request} (hr : Descriptor.Request.decode bytes = some r)
    (ha : Annotated.Request.decode bytes = some a) : RequestViews bytes r a := by
  obtain ⟨fields, hd, rfl⟩ := Option.map_eq_some_iff.mp hr
  obtain ⟨fields', hd', rfl⟩ := Option.map_eq_some_iff.mp ha
  obtain ⟨hp, -⟩ := Wire.decodeAs_eq_some_iff.mp hd
  obtain ⟨hp', hacc⟩ := Wire.decodeAs_eq_some_iff.mp hd'
  obtain rfl : fields = fields' := Option.some.inj (hp.symm.trans hp')
  have hfiles := accepts_messages 15 hacc rfl
  refine ⟨fields, hp, InStep.map_of_forall₂ ?_ hfiles⟩
  intro bs fs h
  obtain ⟨hparse, below, hlimit, hbelow⟩ := h
  exact fileViews_ofFields hparse hbelow (by omega)

/-! ### Alignment -/

/-- The field numbers and indices that lead to the bytes of a message. -/
def messagePlace (file : Nat) : IndexPath → List (Nat × Nat)
  | [] => [(15, file)]
  | i :: is => (15, file) :: (4, i) :: is.map fun j => (3, j)

theorem MessageViews.at? : ∀ {bytes : List UInt8} {d : Descriptor.Message}
    {a : Annotated.Message}, MessageViews bytes d a → ∀ is : IndexPath,
      Together MessageViews (payloadAt (is.map fun j => (3, j)) bytes) (d.at? is) (a.at? is)
  | bytes, d, a, h, [] => Or.inr ⟨bytes, d, a, rfl, rfl, rfl, h⟩
  | bytes, d, a, .read hp hfields hnested, i :: is => by
      rw [List.map_cons, Wire.payloadAt_cons hp]
      refine (hnested.getElem? i).bind ?_
      intro inner d' m' hviews
      exact MessageViews.at? hviews is

theorem RequestViews.files {bytes : List UInt8} {r : Descriptor.Request} {a : Annotated.Request}
    (h : RequestViews bytes r a) (file : Nat) :
    Together FileViews (payloadAt [(15, file)] bytes) r.files[file]? a.files[file]? := by
  obtain ⟨fields, hp, hfiles⟩ := h
  rw [Wire.payloadAt_cons hp]
  simpa [payloadAt] using hfiles.getElem? file

theorem RequestViews.message? {bytes : List UInt8} {r : Descriptor.Request}
    {a : Annotated.Request} (h : RequestViews bytes r a) (file : Nat) (path : IndexPath) :
    Together MessageViews (payloadAt (messagePlace file path) bytes) (r.message? file path)
      (a.message? file path) := by
  cases path with
  | nil =>
      refine Or.inl ⟨?_, ?_⟩
      · simp [Descriptor.Request.message?, Descriptor.File.message?]
      · simp [Annotated.Request.message?, Annotated.File.message?]
  | cons i is =>
      rw [messagePlace, Wire.payloadAt_cons_eq_bind]
      refine (h.files file).bind ?_
      rintro bs d m ⟨fields, hp, -, hmessages, -⟩
      rw [Wire.payloadAt_cons hp]
      refine (hmessages.getElem? i).bind ?_
      intro inner d' m' hviews
      exact hviews.at? is

/-- The two views of a request agree. -/
structure Aligned (bytes : List UInt8) (r : Descriptor.Request) (a : Annotated.Request) :
    Prop where
  files : r.files.length = a.files.length
  names : ∀ i : Nat, (r.files[i]?).map (·.name?) = (a.files[i]?).map (·.name?)
  messages : ∀ i : Nat,
    (r.files[i]?).map (·.messages.length) = (a.files[i]?).map (·.messages.length)
  services : ∀ i : Nat,
    (r.files[i]?).map (·.services.length) = (a.files[i]?).map (·.services.length)
  methods : ∀ i s : Nat, ((r.files[i]?).bind (·.services[s]?)).map (·.methods.length) =
    ((a.files[i]?).bind (·.services[s]?)).map (·.methods.length)
  fields : ∀ i path,
    (r.message? i path).map (·.fields.length) = (a.message? i path).map (·.fields.length)
  nested : ∀ i path,
    (r.message? i path).map (·.nested.length) = (a.message? i path).map (·.nested.length)
  /-- A message and its annotation are read from the same bytes. -/
  messageBytes : ∀ i path, Together MessageViews (payloadAt (messagePlace i path) bytes)
    (r.message? i path) (a.message? i path)
  /-- A field and its annotation are read from the same bytes. -/
  fieldBytes : ∀ i path j, Together FieldViews (payloadAt (messagePlace i path ++ [(2, j)]) bytes)
    ((r.message? i path).bind (·.fields[j]?)) ((a.message? i path).bind (·.fields[j]?))
  /-- A method and its annotation are read from the same bytes. -/
  methodBytes : ∀ i s m : Nat,
    Together MethodViews (payloadAt [(15, i), (6, s), (2, m)] bytes)
      ((r.files[i]?).bind (·.method? s m)) ((a.files[i]?).bind (·.method? s m))

theorem RequestViews.services {bytes : List UInt8} {r : Descriptor.Request}
    {a : Annotated.Request} (h : RequestViews bytes r a) (i s : Nat) :
    Together ServiceViews (payloadAt [(15, i), (6, s)] bytes) ((r.files[i]?).bind (·.services[s]?))
      ((a.files[i]?).bind (·.services[s]?)) := by
  rw [Wire.payloadAt_cons_eq_bind]
  refine (h.files i).bind ?_
  rintro bs d m ⟨fields, hp, -, -, hservices⟩
  rw [Wire.payloadAt_cons hp]
  simpa [payloadAt] using hservices.getElem? s

/-- **The views are aligned.** Whatever bytes both readers accept, the descriptors and the
annotations that they read have the same shape, and at every index path both were read from the
same bytes. -/
theorem aligned_of_decode {bytes : List UInt8} {r : Descriptor.Request} {a : Annotated.Request}
    (hr : Descriptor.Request.decode bytes = some r)
    (ha : Annotated.Request.decode bytes = some a) : Aligned bytes r a := by
  have hviews := requestViews_of_decode hr ha
  have hfile := hviews.files
  have hmessage := hviews.message?
  constructor
  case files =>
    obtain ⟨fields, -, hfiles⟩ := hviews
    exact hfiles.length_eq
  case names =>
    intro i
    refine (hfile i).map_eq ?_
    rintro bs d m ⟨fields, -, hname, -⟩
    exact hname
  case messages =>
    intro i
    refine (hfile i).map_eq ?_
    rintro bs d m ⟨fields, -, -, hmessages, -⟩
    exact hmessages.length_eq
  case services =>
    intro i
    refine (hfile i).map_eq ?_
    rintro bs d m ⟨fields, -, -, -, hservices⟩
    exact hservices.length_eq
  case methods =>
    intro i s
    refine (hviews.services i s).map_eq ?_
    rintro bs d m ⟨fields, -, hmethods⟩
    exact hmethods.length_eq
  case fields =>
    intro i path
    refine (hmessage i path).map_eq ?_
    rintro bs d m ⟨-, hfields, -⟩
    exact hfields.length_eq
  case nested =>
    intro i path
    refine (hmessage i path).map_eq ?_
    rintro bs d m ⟨-, -, hnested⟩
    exact hnested.length_eq
  case messageBytes => exact hmessage
  case fieldBytes =>
    intro i path j
    rw [Wire.payloadAt_append]
    refine (hmessage i path).bind ?_
    rintro bs d m ⟨hp, hfields, -⟩
    rw [Wire.payloadAt_cons hp]
    simpa [payloadAt] using hfields.getElem? j
  case methodBytes =>
    intro i s m
    simp only [Descriptor.File.method?, Annotated.File.method?, ← Option.bind_assoc]
    rw [show [(15, i), (6, s), (2, m)] = [(15, i), (6, s)] ++ [(2, m)] from rfl,
      Wire.payloadAt_append]
    refine (hviews.services i s).bind ?_
    rintro bs d a' ⟨fields, hp, hmethods⟩
    rw [Wire.payloadAt_cons hp]
    simpa [payloadAt] using hmethods.getElem? m

/-- A file with a message that has a required field and a nested message, and with a service. -/
def markedBytes : List UInt8 :=
  Wire.bytesField 15 (Wire.textField 1 "p.proto" ++
    Wire.bytesField 4 (Wire.textField 1 "Point" ++
      Wire.bytesField 3 (Wire.textField 1 "Inner") ++
      Wire.bytesField 2 (Wire.textField 1 "x" ++
        Wire.bytesField 8 (Wire.varintField Annotated.behaviorField 2))) ++
    Wire.bytesField 6 (Wire.bytesField 2 (Wire.textField 1 "Move")))

theorem aligned_markedBytes : ∃ r a, Descriptor.Request.decode markedBytes = some r ∧
    Annotated.Request.decode markedBytes = some a ∧ Aligned markedBytes r a := by
  obtain ⟨r, hr⟩ : ∃ r, Descriptor.Request.decode markedBytes = some r :=
    Option.isSome_iff_exists.mp (by decide +kernel)
  obtain ⟨a, ha⟩ : ∃ a, Annotated.Request.decode markedBytes = some a :=
    Option.isSome_iff_exists.mp (by decide +kernel)
  exact ⟨r, a, hr, ha, aligned_of_decode hr ha⟩

end RestScaffold
