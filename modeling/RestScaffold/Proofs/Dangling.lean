import RestScaffold.Proofs.Lookups

/-! # Dangling references

The contract of a request can be resolved when every name that is looked up for it is found.

* `Descriptor.Request.HasDanglingField`, `Descriptor.Request.HasDanglingMethod`: a field or a method
  refers to a name that nothing bears;
* `failsWhenDangling_contractFiles`: these are the only causes for which a contract cannot be
  resolved, and the first dangling reference is the fault;
* `not_forall_fails_when_dangling`: a map entry that is hidden by another declaration of its name
  does no harm, and one that is not does whatever the type of the field that refers to it. -/

namespace RestScaffold

namespace Descriptor

open Contract (MapEntry referredName messageType enumType scalarOf? repeatedLabel mapEntry?)

/-- Is the type number of the field missing, or does it stand for nothing? -/
def Field.isUntyped (f : Field) : Bool :=
  f.type.all fun number =>
    (scalarOf? number).isNone && number ≠ messageType && number ≠ enumType

/-- The type of the field refers to a name that nothing bears. -/
def Request.TypeDangles (r : Request) (f : Field) : Prop :=
  f.isReference = true ∧ referredName f.typeName ∉ r.typeNames

/-- The request declares the map entry that a repeated field refers to. -/
def Request.DeclaresEntry (r : Request) (f : Field) (entry : MapEntry) : Prop :=
  f.label = repeatedLabel ∧ ∃ p ∈ r.namedMessages, p.1 = referredName f.typeName ∧
    mapEntry? p.2 = some entry

/-- The type of a field of a message refers to a name that nothing bears, or so does the type of key
or value of the entry that `isEntry` gives to the field. -/
def Request.HasDanglingField (r : Request) (isEntry : Field → MapEntry → Prop) : Prop :=
  ∃ p ∈ r.namedMessages, p.2.isMapEntry = false ∧ ∃ f ∈ p.2.fields, r.TypeDangles f ∨
    ∃ entry, isEntry f entry ∧ (r.TypeDangles entry.key ∨ r.TypeDangles entry.value)

/-- A method of a listed file takes or gives what is no message, or is a map entry. -/
def Request.HasDanglingMethod (r : Request) : Prop :=
  ∃ d ∈ r.files, d.name ∈ r.listed ∧ ∃ s ∈ d.services, ∃ m ∈ s.methods,
    referredName m.input ∉ r.beanNames ∨ referredName m.output ∉ r.beanNames

end Descriptor

namespace Contract

open Naming (qualify)

/-- The field is repeated, and the last declaration of the registry that has the name that it refers
to is a map entry. -/
def Registry.LastEntry (registry : Registry) (f : Descriptor.Field) (entry : MapEntry) : Prop :=
  f.label = repeatedLabel ∧ ∃ before e after, registry.declarations = before ++ e :: after ∧
    e.fullName = referredName f.typeName ∧ (∀ later ∈ after, later.fullName ≠ e.fullName) ∧
    e.entry = some entry

/-! ### Dangling fields and methods -/

section

variable {request : Descriptor.Request}

theorem exists_dangling_typeReferences (referrer : String) (f : Descriptor.Field) :
    (∃ r ∈ typeReferences referrer f, request.Dangling r) ↔ request.TypeDangles f := by
  unfold typeReferences Descriptor.Request.TypeDangles
  cases f.isReference <;> simp [Descriptor.Request.Dangling]

theorem exists_dangling_entryReferences (registry : Registry) (referrer : String)
    (f : Descriptor.Field) : (∃ r ∈ entryReferences registry referrer f, request.Dangling r) ↔
      ∃ entry, mapEntryOf registry f = some entry ∧
        (request.TypeDangles entry.key ∨ request.TypeDangles entry.value) := by
  unfold entryReferences
  cases mapEntryOf registry f with
  | none => simp
  | some entry =>
      simp only [Option.elim_some, List.mem_append, or_and_right, exists_or,
        exists_dangling_typeReferences, Option.some.injEq, exists_eq_left']

theorem exists_dangling_fieldReferences (registry : Registry) :
    (∃ r ∈ request.files.flatMap (fieldReferences registry), request.Dangling r) ↔
      request.HasDanglingField fun f entry => mapEntryOf registry f = some entry := by
  have hfield : ∀ (p : String × Descriptor.Message) (f : Descriptor.Field),
      (∃ r ∈ typeReferences p.1 f ++ entryReferences registry p.1 f, request.Dangling r) ↔
        request.TypeDangles f ∨ ∃ entry, mapEntryOf registry f = some entry ∧
          (request.TypeDangles entry.key ∨ request.TypeDangles entry.value) := by
    intro p f
    simp only [List.mem_append, or_and_right, exists_or, exists_dangling_typeReferences,
      exists_dangling_entryReferences]
  constructor
  · rintro ⟨r, hr, hbad⟩
    obtain ⟨d, hd, hr⟩ := List.mem_flatMap.mp hr
    obtain ⟨p, hp, hr⟩ := List.mem_flatMap.mp hr
    obtain ⟨f, hf, hr⟩ := List.mem_flatMap.mp hr
    obtain ⟨hp, he⟩ := List.mem_filter.mp hp
    have hdangles := (hfield p f).mp ⟨r, hr, hbad⟩
    exact ⟨p, List.mem_flatMap.mpr ⟨d, hd, hp⟩, by simpa using he, f, hf, hdangles⟩
  · rintro ⟨p, hp, he, f, hf, hdangles⟩
    obtain ⟨r, hr, hbad⟩ := (hfield p f).mpr hdangles
    obtain ⟨d, hd, hp⟩ := List.mem_flatMap.mp hp
    have hbean : p ∈ d.namedMessages.filter (!·.2.isMapEntry) :=
      List.mem_filter.mpr ⟨hp, by simpa using he⟩
    have hmessage : r ∈ messageReferences registry p := List.mem_flatMap.mpr ⟨f, hf, hr⟩
    exact ⟨r, List.mem_flatMap.mpr ⟨d, hd, List.mem_flatMap.mpr ⟨p, hbean, hmessage⟩⟩, hbad⟩

theorem exists_dangling_serviceReferences :
    (∃ r ∈ (request.files.filter fun d => request.listed.contains d.name).flatMap
        serviceReferences, request.Dangling r) ↔ request.HasDanglingMethod := by
  have hmethod : ∀ (scope : String) (m : Descriptor.Method),
      (∃ r ∈ methodReferences scope m, request.Dangling r) ↔
        referredName m.input ∉ request.beanNames ∨ referredName m.output ∉ request.beanNames := by
    intro scope m
    simp [methodReferences, Descriptor.Request.Dangling]
  constructor
  · rintro ⟨r, hr, hbad⟩
    obtain ⟨d, hd, hr⟩ := List.mem_flatMap.mp hr
    obtain ⟨s, hs, hr⟩ := List.mem_flatMap.mp hr
    obtain ⟨m, hm, hr⟩ := List.mem_flatMap.mp hr
    obtain ⟨hd, hl⟩ := List.mem_filter.mp hd
    exact ⟨d, hd, by simpa using hl, s, hs, m, hm, (hmethod _ m).mp ⟨r, hr, hbad⟩⟩
  · rintro ⟨d, hd, hl, s, hs, m, hm, h⟩
    obtain ⟨r, hr, hbad⟩ := (hmethod (qualify d.package s.name) m).mpr h
    have hlisted : d ∈ request.files.filter fun d => request.listed.contains d.name :=
      List.mem_filter.mpr ⟨hd, by simpa using hl⟩
    have hservice : r ∈ serviceReferences d :=
      List.mem_flatMap.mpr ⟨s, hs, List.mem_flatMap.mpr ⟨m, hm, hr⟩⟩
    exact ⟨r, List.mem_flatMap.mpr ⟨d, hlisted, hservice⟩, hbad⟩

/-- A registry finds the last declaration of a name. -/
theorem Registry.find?_eq_some_iff_append {registry : Registry} {name : String} {e : Declaration} :
    registry.find? name = some e ↔ ∃ before after, registry.declarations = before ++ e :: after ∧
      e.fullName = name ∧ ∀ later ∈ after, later.fullName ≠ name := by
  have hfind : registry.find? name =
      registry.declarations.reverse.find? fun d => decide (d.fullName = name) := by
    unfold Registry.find?
    rw [List.getLast?_eq_head?_reverse, ← List.filter_reverse, List.head?_filter]
  rw [hfind, List.find?_eq_some_iff_append]
  simp only [decide_eq_true_eq, Bool.not_eq_eq_eq_not, Bool.not_true, decide_eq_false_iff_not]
  constructor
  · rintro ⟨hname, after, before, hsplit, hafter⟩
    refine ⟨before.reverse, after.reverse, ?_, hname, by simpa using hafter⟩
    rw [← List.reverse_reverse registry.declarations, hsplit]
    simp
  · rintro ⟨before, after, hsplit, hname, hafter⟩
    refine ⟨hname, after.reverse, before.reverse, ?_, by simpa using hafter⟩
    rw [hsplit]
    simp

theorem mapEntryOf_eq_some_iff_lastEntry {registry : Registry} {f : Descriptor.Field}
    {entry : MapEntry} : mapEntryOf registry f = some entry ↔ registry.LastEntry f entry := by
  unfold mapEntryOf Registry.LastEntry Registry.resolve?
  by_cases hl : f.label = repeatedLabel
  · rw [if_pos hl, Option.bind_eq_some_iff, and_iff_right hl]
    simp only [Registry.find?_eq_some_iff_append]
    constructor
    · rintro ⟨e, ⟨before, after, hsplit, hname, hafter⟩, hentry⟩
      exact ⟨before, e, after, hsplit, hname, by rwa [hname], hentry⟩
    · rintro ⟨before, e, after, hsplit, hname, hafter, hentry⟩
      exact ⟨e, ⟨before, after, hsplit, hname, by rwa [hname] at hafter⟩, hentry⟩
  · simp [hl]

/-- Where no two declarations have one name, the entry of a map field is the one that the request
declares under the name that the field refers to. -/
theorem mapEntryOf_eq_some_iff {options : Options} {annotations : Annotated.Request}
    (hn : request.typeNames.Nodup) {f : Descriptor.Field} {entry : MapEntry} :
    mapEntryOf (registryOf options request annotations) f = some entry ↔
      request.DeclaresEntry f entry := by
  unfold mapEntryOf Descriptor.Request.DeclaresEntry
  by_cases hl : f.label = repeatedLabel
  · rw [if_pos hl, Option.bind_eq_some_iff, and_iff_right hl]
    constructor
    · rintro ⟨e, he, hentry⟩
      obtain ⟨hname, d, hd, ⟨p, hp, rfl⟩ | ⟨p, hp, rfl⟩⟩ := exists_of_resolve? he
      · exact ⟨p, List.mem_flatMap.mpr ⟨d, hd, hp⟩, hname, hentry⟩
      · exact absurd hentry (by simp [enumerationDeclaration])
    · rintro ⟨p, hp, hname, hentry⟩
      obtain ⟨d, hd, hp⟩ := List.mem_flatMap.mp hp
      refine ⟨messageDeclaration
        (SourceFile.ofDescriptor options request annotations d).beanPackage p, ?_, hentry⟩
      refine (find?_eq_some_iff (nodup_registryOf hn)).mpr ⟨?_, hname⟩
      rw [registryOf_declarations]
      refine List.mem_flatMap.mpr ⟨d, hd, (declarations_perm _).mem_iff.mpr ?_⟩
      exact List.mem_append_left _ (List.mem_map_of_mem hp)
  · simp [hl]

end

/-! ### Fields of unknown type -/

theorem kindOf_of_isUntyped (registry : Registry) (referrer : String) {f : Descriptor.Field}
    (h : f.isUntyped = true) :
    (kindOf registry referrer f).result = .ok (.unknown (f.type.getD 0)) := by
  unfold Descriptor.Field.isUntyped at h
  cases ht : f.type with
  | none => exact kindOf_of_type_eq_none ht
  | some number =>
      rw [ht] at h
      simp only [Option.all_some, Bool.and_eq_true, Option.isNone_iff_eq_none,
        decide_eq_true_eq] at h
      obtain ⟨⟨hs, hm⟩, he⟩ := h
      exact kindOf_of_scalarOf?_eq_none ht hs hm he

theorem not_isReference_of_isUntyped {f : Descriptor.Field} (h : f.isUntyped = true) :
    f.isReference = false := by
  unfold Descriptor.Field.isUntyped at h
  unfold Descriptor.Field.isReference
  cases ht : f.type with
  | none => rfl
  | some number =>
      rw [ht] at h
      simp only [Option.all_some, Bool.and_eq_true, decide_eq_true_eq] at h
      simp [h.1.2, h.2]

/-! ### When a contract cannot be resolved -/

/-- When the contract of a request cannot be resolved. -/
structure FailsWhenDangling (options : Options) (request : Descriptor.Request)
    (annotations : Annotated.Request) : Prop where
  /-- A field or a method dangles. -/
  fails_iff : (∃ fault, (contractFiles options request annotations).result = .error fault) ↔
    request.HasDanglingField
        (fun f entry => mapEntryOf (registryOf options request annotations) f = some entry) ∨
      request.HasDanglingMethod
  /-- The fault names the first reference that dangles, as it is written, and where it stands. -/
  fault_iff : ∀ fault, (contractFiles options request annotations).result = .error fault ↔
    ∃ r, IsFirst request.Dangling (references (registryOf options request annotations) request) r ∧
      fault = .unresolvedType r.typeName r.referrer
  /-- Of several declarations of one name, the last says whether a field is a map. -/
  last_iff : ∀ f entry, mapEntryOf (registryOf options request annotations) f = some entry ↔
    (registryOf options request annotations).LastEntry f entry
  /-- Where no two declarations have one name, it is the one that the request declares. -/
  entry_iff : request.typeNames.Nodup → ∀ f entry,
    mapEntryOf (registryOf options request annotations) f = some entry ↔
      request.DeclaresEntry f entry
  /-- The type of a field never dangles if its number is missing or unknown. -/
  untyped : ∀ f : Descriptor.Field, f.isUntyped = true → ¬ request.TypeDangles f ∧
    ∀ referrer, (kindOf (registryOf options request annotations) referrer f).result =
      .ok (.unknown (f.type.getD 0))

/-- **Dangling references.** The contract of a request cannot be resolved exactly when a field of a
message of any file, or a method of a listed one, refers to a name that nothing bears. The fault is
the first such reference. -/
theorem failsWhenDangling_contractFiles (options : Options) (request : Descriptor.Request)
    (annotations : Annotated.Request) : FailsWhenDangling options request annotations := by
  have hstop := looksUp_contractFiles options request annotations
  refine ⟨?_, ?_, fun f entry => mapEntryOf_eq_some_iff_lastEntry,
    fun hn f entry => mapEntryOf_eq_some_iff hn, ?_⟩
  · rw [hstop.fails_iff, ← exists_dangling_fieldReferences, ← exists_dangling_serviceReferences]
    simp only [isDangling, decide_eq_true_eq, references, List.mem_append, or_and_right, exists_or]
  · intro fault
    rw [hstop.eq_error_iff]
    simp only [isDangling, decide_eq_true_eq, Reference.fault]
  · intro f hf
    refine ⟨fun hdangles => ?_, fun referrer => kindOf_of_isUntyped _ referrer hf⟩
    exact absurd hdangles.1 (by simp [not_isReference_of_isUntyped hf])

/-! ### Entries that are hidden, and fields of unknown type -/

/-- A repeated field of a name that a map entry and then a message without fields bear. The value of
the entry refers to a name that nothing bears. -/
def hiddenEntryRequest : Descriptor.Request where
  listed := ["p.proto"]
  files := [{
    name? := some "p.proto"
    package := "p"
    messages := [
      { name := "M"
        fields := [{ name := "f", number := 1, label := 3, type := some 11, typeName := ".p.E" }] },
      { name := "E"
        isMapEntry := true
        fields := [{ name := "key", number := 1, type := some 9 },
          { name := "value", number := 2, type := some 11, typeName := ".p.Nope" }] },
      { name := "E" }] }]

/-- A repeated field without a type number, of the name of a map entry whose value refers to a name
that nothing bears. -/
def untypedMapRequest : Descriptor.Request where
  listed := ["p.proto"]
  files := [{
    name? := some "p.proto"
    package := "p"
    messages := [{
      name := "M"
      fields := [{ name := "f", number := 1, label := 3, typeName := ".p.M.E" }]
      nested := [{
        name := "E"
        isMapEntry := true
        fields := [{ name := "key", number := 1, type := some 9 },
          { name := "value", number := 2, type := some 11, typeName := ".p.Nope" }] }] }] }]

/-- A dangling map entry does no harm where another declaration hides it. One that is not hidden
does, also if the field that refers to it has no type number. -/
theorem not_forall_fails_when_dangling :
    (¬ ∀ (options : Options) (request : Descriptor.Request) (annotations : Annotated.Request),
      (∃ fault, (contractFiles options request annotations).result = .error fault) ↔
        request.HasDanglingField request.DeclaresEntry ∨ request.HasDanglingMethod) ∧
    ¬ ∀ (options : Options) (request : Descriptor.Request) (annotations : Annotated.Request),
      (∀ p ∈ request.namedMessages, p.2.isMapEntry = false →
        ∀ f ∈ p.2.fields, f.isUntyped = true) →
      (∀ d ∈ request.files, d.services = []) →
      ∃ files, (contractFiles options request annotations).result = .ok files := by
  constructor
  · intro hall
    have hdangles : hiddenEntryRequest.HasDanglingField hiddenEntryRequest.DeclaresEntry := by
      refine ⟨_, List.mem_cons_self, rfl, _, List.mem_cons_self, Or.inr ⟨_, ⟨rfl, _,
        List.mem_cons_of_mem _ List.mem_cons_self, ?_, rfl⟩, Or.inr ⟨rfl, ?_⟩⟩⟩
      · decide +kernel
      · decide +kernel
    obtain ⟨fault, hfault⟩ := (hall {} hiddenEntryRequest {}).mpr (Or.inl hdangles)
    have hok : (contractFiles {} hiddenEntryRequest {}).result.isOk = true := by decide +kernel
    rw [hfault] at hok
    exact absurd hok (by simp [Except.isOk, Except.toBool])
  · intro hall
    obtain ⟨files, hfiles⟩ := hall {} untypedMapRequest {} (by decide +kernel) (by decide +kernel)
    have hok : (contractFiles {} untypedMapRequest {}).result.isOk = false := by decide +kernel
    rw [hfiles] at hok
    exact absurd hok (by simp [Except.isOk, Except.toBool])

end Contract

end RestScaffold
