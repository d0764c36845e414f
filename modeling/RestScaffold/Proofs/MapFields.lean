import RestScaffold.Proofs.WalkedMessages

/-! # Map fields

A repeated field whose type name leads to a map entry, wherever the request declares it, is a map.

* `mem_namedMessages_iff`: the messages of a file by their places;
* `NamesEntry`: a type name leads to a map entry with key and value;
* `mapEntryOf_eq_some_iff_namesEntry`: the registry finds that entry;
* `MapType`: the type of a map, which is that of its keys and values;
* `Collects`, `collects_of_contractField`: how many values a field holds, and of which types;
* `collects_of_contractFiles`: the fields of all messages of a run. -/

namespace RestScaffold

namespace Descriptor

open Contract (referredName mapEntry?)

/-! ### Map entries of a request -/

theorem File.mem_namedMessages_iff {d : File} {name : String} {m : Message} :
    (name, m) ∈ d.namedMessages ↔
      ∃ path, d.message? path = some m ∧ Naming.dotted (d.package :: d.namesTo path) = name := by
  constructor
  · intro h
    obtain ⟨path, -, hm, hname⟩ := exists_left_of_forall₂ d.forall₂_namedMessages _ h
    exact ⟨path, hm, hname.symm⟩
  · rintro ⟨path, hm, rfl⟩
    obtain ⟨p, hp, hsame, hname⟩ := exists_right_of_forall₂ d.forall₂_namedMessages path
      (File.mem_messagePaths.mpr ⟨m, hm⟩)
    obtain rfl := Option.some.inj (hm.symm.trans hsame)
    exact hname ▸ hp

/-- Some file of the request has a map entry, at any depth, under the name that a type name leads
to; `key` and `value` are the first of its fields with the numbers one and two. -/
def Request.NamesEntry (r : Request) (typeName : String) (key value : Field) : Prop :=
  ∃ d ∈ r.files, ∃ path entry, d.message? path = some entry ∧
    Naming.dotted (d.package :: d.namesTo path) = referredName typeName ∧
      entry.isMapEntry = true ∧ IsFirst (fun f : Field => f.number = 1) entry.fields key ∧
        IsFirst (fun f : Field => f.number = 2) entry.fields value

theorem mapEntry?_eq_some_iff {m : Message} {key value : Field} :
    mapEntry? m = some ⟨key, value⟩ ↔ m.isMapEntry = true ∧
      IsFirst (fun f : Field => f.number = 1) m.fields key ∧
        IsFirst (fun f : Field => f.number = 2) m.fields value := by
  have hfirst : ∀ (number : Int32) (f : Field),
      IsFirst (fun f : Field => f.number = number) m.fields f ↔
        m.fields.find? (·.number = number) = some f := by
    intro number f
    rw [← isFirst_iff_find?]
    simp
  rw [hfirst, hfirst]
  unfold mapEntry?
  by_cases hm : m.isMapEntry = true
  · rw [if_pos hm, and_iff_right hm]
    split
    · rename_i k v hk hv
      simp [hk, hv]
    · rename_i hnone
      exact iff_of_false (by simp) fun h => hnone key value h.1 h.2
  · simp [hm]

theorem Request.namesEntry_iff {r : Request} {typeName : String} {key value : Field} :
    r.NamesEntry typeName key value ↔ ∃ p ∈ r.namedMessages, p.1 = referredName typeName ∧
      mapEntry? p.2 = some ⟨key, value⟩ := by
  simp only [Request.NamesEntry, mapEntry?_eq_some_iff]
  constructor
  · rintro ⟨d, hd, path, entry, hm, hname, hentry⟩
    have hmem := File.mem_namedMessages_iff.mpr ⟨path, hm, hname⟩
    exact ⟨_, List.mem_flatMap.mpr ⟨d, hd, hmem⟩, rfl, hentry⟩
  · rintro ⟨⟨name, entry⟩, hp, rfl, hentry⟩
    obtain ⟨d, hd, hmem⟩ := List.mem_flatMap.mp hp
    obtain ⟨path, hm, hname⟩ := File.mem_namedMessages_iff.mp hmem
    exact ⟨d, hd, path, entry, hm, hname, hentry⟩

end Descriptor

namespace Contract

open Target (JavaType)

variable {options : Options} {request : Descriptor.Request} {annotations : Annotated.Request}

/-- Where no two declarations have one name, the registry finds the map entry that the type name of
a repeated field leads to. -/
theorem mapEntryOf_eq_some_iff_namesEntry (hn : request.typeNames.Nodup) {f : Descriptor.Field}
    {key value : Descriptor.Field} :
    mapEntryOf (registryOf options request annotations) f = some ⟨key, value⟩ ↔
      f.label = repeatedLabel ∧ request.NamesEntry f.typeName key value := by
  rw [mapEntryOf_eq_some_iff hn, Descriptor.Request.DeclaresEntry,
    Descriptor.Request.namesEntry_iff]

/-! ### Fields -/

/-- The type of a map and its imports are made of those of key and value. -/
structure MapType (field : Field) (key value : Kind) : Prop where
  text : (JavaType.ofField field).text =
    "Map<" ++ (JavaType.ofKind key).text ++ ", " ++ (JavaType.ofKind value).text ++ ">"
  imports : ∀ package, (JavaType.ofField field).imports package = "java.util.Map" ::
    ((JavaType.ofKind key).imports package ++ (JavaType.ofKind value).imports package)
  /-- They are the same for all maps with these keys and values, whatever their entries. -/
  same : ∀ other : Field, other.cardinality = .map key value →
    JavaType.ofField other = JavaType.ofField field

theorem mapType_of_cardinality {field : Field} {key value : Kind}
    (h : field.cardinality = .map key value) : MapType field key value := by
  have htype : ∀ other : Field, other.cardinality = .map key value →
      JavaType.ofField other = .map (.ofKind key) (.ofKind value) := by
    intro other hother
    rw [JavaType.ofField, hother]
  refine ⟨?_, fun package => ?_, fun other hother => ?_⟩
  · rw [htype field h]
    rfl
  · rw [htype field h]
    rfl
  · rw [htype field h, htype other hother]

/-- How many values a field holds. `registry` finds the kinds of keys and values, for a message of
the full name `referrer`. -/
structure Collects (request : Descriptor.Request) (registry : Registry) (referrer : String)
    (f : Descriptor.Field) (field : Field) : Prop where
  name : field.name = f.name
  map_iff : (∃ key value, field.cardinality = .map key value) ↔
    f.label = 3 ∧ ∃ k v, request.NamesEntry f.typeName k v
  kinds : ∀ key value, field.cardinality = .map key value → ∀ k v,
    request.NamesEntry f.typeName k v → (kindOf registry referrer k).result = .ok key ∧
      (kindOf registry referrer v).result = .ok value
  list_iff : field.cardinality = .list ↔ f.label = 3 ∧ ¬ ∃ k v, request.NamesEntry f.typeName k v
  single_iff : field.cardinality = .single ↔ f.label ≠ 3
  mapType : ∀ key value, field.cardinality = .map key value → MapType field key value

/-- The cardinality of a field, by its label and by what its type name leads to. -/
theorem cardinalityOf_cases (hn : request.typeNames.Nodup) {referrer : String}
    {f : Descriptor.Field} {c : Cardinality}
    (h : (cardinalityOf (registryOf options request annotations) referrer f).result = .ok c) :
    (f.label ≠ repeatedLabel ∧ c = .single) ∨
    (f.label = repeatedLabel ∧ (¬ ∃ k v, request.NamesEntry f.typeName k v) ∧ c = .list) ∨
    (f.label = repeatedLabel ∧ ∃ k v key value,
      (∀ k' v', request.NamesEntry f.typeName k' v' ↔ k = k' ∧ v = v') ∧
      (kindOf (registryOf options request annotations) referrer k).result = .ok key ∧
      (kindOf (registryOf options request annotations) referrer v).result = .ok value ∧
      c = .map key value) := by
  have hentry : ∀ k v, mapEntryOf (registryOf options request annotations) f = some ⟨k, v⟩ ↔
      f.label = repeatedLabel ∧ request.NamesEntry f.typeName k v :=
    fun _ _ => mapEntryOf_eq_some_iff_namesEntry hn
  rcases cardinalityOf_eq_ok_iff.mp h with ⟨hnone, rfl⟩ | ⟨⟨k, v⟩, key, value, hsome, hk, hv, rfl⟩
  · by_cases hl : f.label = repeatedLabel
    · refine Or.inr (Or.inl ⟨hl, ?_, if_pos hl⟩)
      rintro ⟨k, v, hnames⟩
      exact absurd (hnone.symm.trans ((hentry k v).mpr ⟨hl, hnames⟩)) (by simp)
    · exact Or.inl ⟨hl, if_neg hl⟩
  · have hl := ((hentry k v).mp hsome).1
    refine Or.inr (Or.inr ⟨hl, k, v, key, value, fun k' v' => ?_, hk, hv, rfl⟩)
    have hsame := hentry k' v'
    rw [hsome, and_iff_right hl, Option.some.injEq, MapEntry.mk.injEq] at hsame
    exact hsame.symm

theorem collects_of_contractField (hn : request.typeNames.Nodup) {s : SourceFile}
    {d : DeclaredMessage} {j : Nat} {f : Descriptor.Field} {field : Field}
    (h : (contractField (registryOf options request annotations) s d j f).result = .ok field) :
    Collects request (registryOf options request annotations) d.fullName f field := by
  obtain ⟨kind, cardinality, -, hc, rfl⟩ := contractField_eq_ok_iff.mp h
  have hlabel : repeatedLabel = 3 := rfl
  rcases cardinalityOf_cases hn hc with ⟨hl, rfl⟩ | ⟨hl, hnone, rfl⟩ |
    ⟨hl, k, v, key, value, hnames, hk, hv, rfl⟩
  · rw [hlabel] at hl
    refine ⟨rfl, ?_, ?_, ?_, ?_, fun _ _ => mapType_of_cardinality⟩ <;> simp [resolvedField, hl]
  · rw [hlabel] at hl
    refine ⟨rfl, ?_, ?_, ?_, ?_, fun _ _ => mapType_of_cardinality⟩ <;>
      simp [resolvedField, hl, hnone]
  · rw [hlabel] at hl
    refine ⟨rfl, ?_, ?_, ?_, ?_, fun _ _ => mapType_of_cardinality⟩
    · simp [resolvedField, hl, hnames]
    · rintro key' value' hsame k' v' hnames'
      obtain ⟨rfl, rfl⟩ := Cardinality.map.inj hsame
      obtain ⟨rfl, rfl⟩ := (hnames k' v').mp hnames'
      exact ⟨hk, hv⟩
    · simp [resolvedField, hnames]
    · simp [resolvedField, hl]

/-- The fields of a message, each as many values as it is declared to hold. -/
def CollectsAll (request : Descriptor.Request) (registry : Registry) (declared : Descriptor.Message)
    (m : Message) : Prop :=
  List.Forall₂ (Collects request registry m.fullName) declared.fields m.fields

/-- **Map fields.** Where no two declarations have one name, a field is a map exactly when it is
repeated and its type name leads to a map entry that any file declares; other repeated fields are
lists, and all others hold single values. -/
theorem collects_of_contractFiles (hn : request.typeNames.Nodup) {files : List File}
    (h : (contractFiles options request annotations).result = .ok files) :
    EveryMessage options request annotations
      (CollectsAll request (registryOf options request annotations)) files := by
  refine everyMessage_of_contractFiles (fun s d m hm => ?_) h
  obtain ⟨fields, hfields, rfl⟩ := contractMessage_eq_ok_iff.mp hm
  exact ByIndex.forall₂ (fun _ _ _ hf => collects_of_contractField hn hf) hfields

/-- Fields whose type names lead to entries of another file, of an enclosing message, to one without
a value, to one that is not marked, and to none. Key and value stand in either order, and labels are
of all kinds. -/
def crateRequest : Descriptor.Request where
  listed := ["crate.proto"]
  files := [
    { name? := some "crate.proto"
      package := "store"
      messages := [{
        name := "Crate"
        fields :=
          [{ name := "weights", number := 1, label := 3, type := some 11,
             typeName := "..other.Outer.Inner" },
           { name := "labels", number := 2, label := 3, type := some 11,
             typeName := ".store.Crate.LabelsEntry" },
           { name := "halves", number := 3, label := 3, type := some 9, typeName := "store.Half" },
           { name := "plain", number := 4, label := 3, type := some 11,
             typeName := ".store.Plain" },
           { name := "one", number := 5, label := 1, type := some 11,
             typeName := ".store.Crate.LabelsEntry" },
           { name := "odd", number := 6, label := 7, type := some 5 },
           { name := "many", number := 7, label := 3, type := some 5 }]
        nested := [{
          name := "LabelsEntry"
          isMapEntry := true
          fields :=
            [{ name := "value", number := 2, type := some 12 },
             { name := "other", number := 2, type := some 5 },
             { name := "key", number := 1, type := some 9 }] }] },
        { name := "Half", isMapEntry := true, fields := [{ name := "key", number := 1 }] },
        { name := "Plain"
          fields := [{ name := "key", number := 1, type := some 5 },
            { name := "value", number := 2, type := some 5 }] }] },
    { name? := some "other.proto"
      package := "other"
      messages := [{
        name := "Outer"
        nested := [{
          name := "Inner"
          isMapEntry := true
          fields :=
            [{ name := "key", number := 1, type := some 3 },
             { name := "value", number := 2, type := some 11, typeName := ".store.Crate" }] }] }] }]

theorem collects_crateRequest : crateRequest.typeNames.Nodup ∧ ∃ files,
    (contractFiles {} crateRequest {}).result = .ok files ∧
    files.map (fun file => file.messages.flatMap fun m => m.fields.map fun f =>
      (f.name, (JavaType.ofField f).text)) =
        [[("weights", "Map<Long, Crate>"), ("labels", "Map<String, ByteString>"),
          ("halves", "List<String>"), ("plain", "List<Plain>"), ("one", "LabelsEntry"),
          ("odd", "Integer"), ("many", "List<Integer>"), ("key", "Integer"),
          ("value", "Integer")]] ∧
    EveryMessage {} crateRequest {} (CollectsAll crateRequest (registryOf {} crateRequest {}))
      files := by
  have hn : crateRequest.typeNames.Nodup := by decide +kernel
  have htypes : (contractFiles {} crateRequest {}).result.toOption.map (fun files =>
      files.map fun file => file.messages.flatMap fun m => m.fields.map fun f =>
        (f.name, (JavaType.ofField f).text)) =
      some [[("weights", "Map<Long, Crate>"), ("labels", "Map<String, ByteString>"),
        ("halves", "List<String>"), ("plain", "List<Plain>"), ("one", "LabelsEntry"),
        ("odd", "Integer"), ("many", "List<Integer>"), ("key", "Integer"),
        ("value", "Integer")]] := by
    decide +kernel
  obtain ⟨files, h⟩ : ∃ files, (contractFiles {} crateRequest {}).result = .ok files :=
    exists_ok_of_isOk (by decide +kernel)
  rw [h] at htypes
  exact ⟨hn, files, h, Option.some.inj htypes, collects_of_contractFiles hn h⟩

end Contract

end RestScaffold
