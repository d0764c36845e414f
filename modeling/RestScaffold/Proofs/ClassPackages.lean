import RestScaffold.Proofs.Dangling

/-! # Packages of classes

The class of a message or an enumeration is in one package, and every reference to it has that
package, from whichever file it comes.

* `HasClassPackage`: the package of the classes of a file, by what the options and the file say;
* `Declared`: a reference knows name and package as the file that declares them has them;
* `OnePackage`: all references of a contract, and its messages and enumerations, are declared ones;
* `onePackage_of_contractFiles`: those of every contract are. -/

namespace RestScaffold

namespace Descriptor

/-- The full name and the simple name of everything that a file declares. -/
def File.simpleNames (f : File) : List (String × String) :=
  f.namedMessages.map (fun p => (p.1, p.2.name)) ++
    f.namedEnumerations.map (fun p => (p.1, p.2.name))

theorem File.map_fst_simpleNames (f : File) : f.simpleNames.map (·.1) = f.typeNames := by
  rw [File.simpleNames, List.map_append, List.map_map, List.map_map]
  rfl

/-- A name that a file declares stands for one thing, if no name of the request is used twice. -/
theorem Request.simpleName_unique {r : Request} (hn : r.typeNames.Nodup) {f : File}
    (hf : f ∈ r.files) {p q : String × String} (hp : p ∈ f.simpleNames) (hq : q ∈ f.simpleNames)
    (hname : p.1 = q.1) : p = q := by
  have hfile : f.typeNames.Nodup := (List.nodup_flatMap.mp hn).1 f hf
  rw [← f.map_fst_simpleNames] at hfile
  exact List.inj_on_of_nodup_map hfile hp hq hname

end Descriptor

namespace Contract

/-! ### Packages of files -/

section

variable (options : Options) (request : Descriptor.Request) (d : Descriptor.File)

/-- The base package of a file: what the options say, for a listed file; what the file asks for; the
package of its declarations. -/
inductive HasBasePackage : String → Prop
  | chosen {base : String} : d.name ∈ request.listed → options.basePackage = some base →
      HasBasePackage base
  | asked {base : String} : (d.name ∈ request.listed → options.basePackage = none) →
      d.javaPackage = some base → HasBasePackage base
  | own : (d.name ∈ request.listed → options.basePackage = none) → d.javaPackage = none →
      HasBasePackage d.package

/-- The package of the classes of a file. A file that is not listed keeps the package that it asks
for; otherwise the classes are below the base package. -/
inductive HasClassPackage : String → Prop
  | kept {package : String} : d.name ∉ request.listed → d.javaPackage = some package →
      HasClassPackage package
  | below {base : String} : (d.name ∈ request.listed ∨ d.javaPackage = none) →
      HasBasePackage options request d base →
      HasClassPackage (Naming.qualify base options.beanPackage)

end

section

variable {options : Options} {request : Descriptor.Request} {d : Descriptor.File}

theorem hasBasePackage_iff {base : String} : HasBasePackage options request d base ↔
    base = basePackage options (request.listed.contains d.name) d := by
  by_cases hown : d.name ∈ request.listed → options.basePackage = none
  · have hbase : basePackage options (request.listed.contains d.name) d =
        d.javaPackage.getD d.package := by
      unfold basePackage
      by_cases hl : d.name ∈ request.listed
      · simp [hl, hown hl]
      · simp [hl]
    rw [hbase]
    constructor
    · intro h
      cases h with
      | chosen hl ho => exact absurd (ho.symm.trans (hown hl)) (by simp)
      | asked _ hj => rw [hj, Option.getD_some]
      | own _ hj => rw [hj, Option.getD_none]
    · rintro rfl
      cases hj : d.javaPackage with
      | some base => exact .asked hown hj
      | none => exact .own hown hj
  · obtain ⟨hl, hsome⟩ := Classical.not_imp.mp hown
    obtain ⟨chosen, ho⟩ := Option.ne_none_iff_exists'.mp hsome
    have hbase : basePackage options (request.listed.contains d.name) d = chosen := by
      simp [basePackage, hl, ho]
    rw [hbase]
    constructor
    · intro h
      cases h with
      | chosen _ ho' => exact Option.some.inj (ho'.symm.trans ho)
      | asked hno _ => exact absurd (hno hl) hsome
      | own hno _ => exact absurd (hno hl) hsome
    · rintro rfl
      exact .chosen hl ho

theorem hasClassPackage_iff (annotations : Annotated.Request) {package : String} :
    HasClassPackage options request d package ↔
      package = (SourceFile.ofDescriptor options request annotations d).beanPackage := by
  have hbelow : (d.name ∈ request.listed ∨ d.javaPackage = none) →
      (SourceFile.ofDescriptor options request annotations d).beanPackage =
        Naming.qualify (basePackage options (request.listed.contains d.name) d)
          options.beanPackage := by
    intro h
    unfold SourceFile.ofDescriptor beanPackage
    rcases h with hl | hj
    · simp only [List.contains_iff_mem.mpr hl]
      cases d.javaPackage <;> rfl
    · simp only [hj]
  constructor
  · intro h
    cases h with
    | kept hl hj => simp [SourceFile.ofDescriptor, beanPackage, hl, hj]
    | below hcase hbase => rw [hbelow hcase, hasBasePackage_iff.mp hbase]
  · rintro rfl
    by_cases hcase : d.name ∈ request.listed ∨ d.javaPackage = none
    · rw [hbelow hcase]
      exact .below hcase (hasBasePackage_iff.mpr rfl)
    · -- Only here is the package not below a base package.
      obtain ⟨hl, hj⟩ := not_or.mp hcase
      obtain ⟨package, hj⟩ := Option.ne_none_iff_exists'.mp hj
      have hkept : (SourceFile.ofDescriptor options request annotations d).beanPackage =
          package := by
        simp [SourceFile.ofDescriptor, beanPackage, hl, hj]
      rw [hkept]
      exact .kept hl hj

end

/-! ### Declared references -/

section

variable (options : Options) (request : Descriptor.Request) (annotations : Annotated.Request)
  (files : List File)

/-- A reference as the file that declares its full name has it. -/
def Declared (t : TypeRef) : Prop :=
  ∃ d ∈ request.files, (t.fullName, t.name) ∈ d.simpleNames ∧
    HasClassPackage options request d t.package

/-- A message of any file of the request. -/
def Walked (m : Message) : Prop :=
  ∃ d ∈ request.files, ResolvedIn options request annotations d m

/-- The reference of a field that is declared with a type name, and the classes of its name. -/
structure RefersTo (typeName : String) (t : TypeRef) : Prop where
  fullName : t.fullName = referredName typeName
  declared : Declared options request t
  /-- A message of the full name is in the package of the reference. -/
  message : ∀ m, Walked options request annotations m → m.fullName = t.fullName → m.ref = t
  /-- So is an enumeration. -/
  enumeration : ∀ file ∈ files, ∀ e ∈ file.enumerations, e.fullName = t.fullName → e.ref = t
  /-- There is such a message, unless the full name is that of a map entry or an enumeration. -/
  hasBean : t.fullName ∈ request.beanNames → ∃ m, Walked options request annotations m ∧ m.ref = t
  /-- There is such an enumeration, if a listed file declares one. -/
  hasEnumClass : ∀ d ∈ request.files, d.name ∈ request.listed →
    t.fullName ∈ d.namedEnumerations.map (·.1) →
      ∃ file ∈ files, file.name = d.name ∧ ∃ e ∈ file.enumerations, e.ref = t

/-- The kind of a field refers to a declaration when the type number of the field says so, and then
to the one that its type name means. -/
structure KindRefers (f : Descriptor.Field) (kind : Kind) : Prop where
  isReference : kind.typeRef?.isSome = f.isReference
  refersTo : ∀ t, kind.typeRef? = some t →
    RefersTo options request annotations files f.typeName t

/-- The references of a field: of its kind and, for a map, of key and value, which the entry
declares. -/
structure FieldRefers (f : Descriptor.Field) (field : Field) : Prop where
  kind : KindRefers options request annotations files f field.kind
  entry : ∀ key value, field.cardinality = .map key value → ∃ entry,
    request.DeclaresEntry f entry ∧
      KindRefers options request annotations files entry.key key ∧
      KindRefers options request annotations files entry.value value

/-- The references of all fields of a message. -/
structure MessageRefers (m : Message) : Prop where
  fields : ∃ p ∈ request.namedMessages, m.fullName = p.1 ∧ m.name = p.2.name ∧
    p.2.isMapEntry = false ∧
      List.Forall₂ (FieldRefers options request annotations files) p.2.fields m.fields
  choices : ∀ c ∈ m.choices, ∀ f ∈ c.fields, f ∈ m.fields

/-- Every declaration has one package, and all that refer to it know that one. -/
structure OnePackage : Prop where
  unique : ∀ t t', Declared options request t → Declared options request t' →
    t.fullName = t'.fullName → t = t'
  messages : ∀ m, Walked options request annotations m →
    Declared options request m.ref ∧ MessageRefers options request annotations files m
  enumerations : ∀ file ∈ files, ∀ e ∈ file.enumerations, Declared options request e.ref
  /-- The messages of the files, and those that methods take and give, are among the walked ones. -/
  walked : ∀ file ∈ files, (∀ m ∈ file.messages, Walked options request annotations m) ∧
    ∀ s ∈ file.services, ∀ method ∈ s.methods,
      Walked options request annotations method.input ∧
        Walked options request annotations method.output

end

/-! ### References are declared -/

section

variable {options : Options} {request : Descriptor.Request} {annotations : Annotated.Request}
  {files : List File}

theorem declared_of_mem (annotations : Annotated.Request) {d : Descriptor.File}
    (hd : d ∈ request.files) {name fullName : String} (h : (fullName, name) ∈ d.simpleNames) :
    Declared options request
      ⟨name, fullName, (SourceFile.ofDescriptor options request annotations d).beanPackage⟩ :=
  ⟨d, hd, h, (hasClassPackage_iff annotations).mpr rfl⟩

theorem mem_simpleNames_of_message {d : Descriptor.File} {p : String × Descriptor.Message}
    (h : p ∈ d.namedMessages) : (p.1, p.2.name) ∈ d.simpleNames :=
  List.mem_append_left _ (List.mem_map.mpr ⟨p, h, rfl⟩)

theorem mem_simpleNames_of_enumeration {d : Descriptor.File} {p : String × Descriptor.Enumeration}
    (h : p ∈ d.namedEnumerations) : (p.1, p.2.name) ∈ d.simpleNames :=
  List.mem_append_right _ (List.mem_map.mpr ⟨p, h, rfl⟩)

theorem Declared.unique (hn : request.typeNames.Nodup) {t t' : TypeRef}
    (h : Declared options request t) (h' : Declared options request t')
    (hname : t.fullName = t'.fullName) : t = t' := by
  obtain ⟨d, hd, hmem, hpackage⟩ := h
  obtain ⟨d', hd', hmem', hpackage'⟩ := h'
  have htype : t.fullName ∈ d.typeNames := by
    rw [← d.map_fst_simpleNames]
    exact List.mem_map_of_mem hmem
  have htype' : t.fullName ∈ d'.typeNames := by
    rw [← d'.map_fst_simpleNames, hname]
    exact List.mem_map_of_mem hmem'
  -- Both references are from one file, which has one package for all of its classes.
  obtain rfl := eq_of_mem_typeNames hn hd hd' htype htype'
  have hpair := Descriptor.Request.simpleName_unique hn hd hmem hmem' hname
  have hsame : t.package = t'.package :=
    ((hasClassPackage_iff {}).mp hpackage).trans ((hasClassPackage_iff {}).mp hpackage').symm
  cases t
  cases t'
  simp_all

theorem declared_of_walked {m : Message} (h : Walked options request annotations m) :
    Declared options request m.ref := by
  obtain ⟨d, hd, messages, hms, hm⟩ := h
  obtain ⟨p, hp, -, href, -⟩ := exists_named_of_message hms hm
  rw [href]
  exact declared_of_mem annotations hd (mem_simpleNames_of_message hp)

theorem declared_of_mem_enumerations
    (h : (contractFiles options request annotations).result = .ok files) {file : File}
    (hfile : file ∈ files) {e : Enumeration} (he : e ∈ file.enumerations) :
    Declared options request e.ref := by
  obtain ⟨d, hd, he⟩ := exists_source_of_enumeration h hfile he
  obtain ⟨p, hp, href⟩ := exists_named_of_enumeration he
  rw [href]
  exact declared_of_mem annotations hd (mem_simpleNames_of_enumeration hp)

theorem declared_of_typeRefOf {referrer : String} {f : Descriptor.Field} {t : TypeRef}
    (h : typeRefOf (registryOf options request annotations) referrer f = .ok t) :
    t.fullName = referredName f.typeName ∧ Declared options request t := by
  obtain ⟨e, he, rfl⟩ := typeRefOf_eq_ok_iff.mp h
  obtain ⟨hname, d, hd, ⟨p, hp, rfl⟩ | ⟨p, hp, rfl⟩⟩ := exists_of_resolve? he
  · rw [← hname]
    exact ⟨rfl, declared_of_mem annotations hd (mem_simpleNames_of_message hp)⟩
  · rw [← hname]
    exact ⟨rfl, declared_of_mem annotations hd (mem_simpleNames_of_enumeration hp)⟩

/-! ### References of fields -/

theorem exists_contractMessages
    (h : (contractFiles options request annotations).result = .ok files) {d : Descriptor.File}
    (hd : d ∈ request.files) : ∃ messages,
      ((SourceFile.ofDescriptor options request annotations d).contractMessages
        (registryOf options request annotations)).result = .ok messages := by
  obtain ⟨resolved, hresolved, -⟩ := contractFiles_eq_ok_iff.mp h
  obtain ⟨p, -, -, hms⟩ := exists_right_of_forall₂ hresolved _ (List.mem_map_of_mem hd)
  exact ⟨p.2, hms⟩

theorem refersTo_of_typeRefOf (hn : request.typeNames.Nodup)
    (h : (contractFiles options request annotations).result = .ok files) {referrer : String}
    {f : Descriptor.Field} {t : TypeRef}
    (ht : typeRefOf (registryOf options request annotations) referrer f = .ok t) :
    RefersTo options request annotations files f.typeName t := by
  obtain ⟨hname, hdeclared⟩ := declared_of_typeRefOf ht
  have hmessage : ∀ m, Walked options request annotations m → m.fullName = t.fullName →
      m.ref = t :=
    fun m hm hsame => (declared_of_walked hm).unique hn hdeclared hsame
  have henumeration : ∀ file ∈ files, ∀ e ∈ file.enumerations, e.fullName = t.fullName →
      e.ref = t :=
    fun file hfile e he hsame =>
      (declared_of_mem_enumerations h hfile he).unique hn hdeclared hsame
  refine ⟨hname, hdeclared, hmessage, henumeration, ?_, ?_⟩
  · intro hbean
    obtain ⟨d, hd, hbean⟩ := List.mem_flatMap.mp hbean
    obtain ⟨p, hp, hsame⟩ := List.mem_map.mp hbean
    obtain ⟨hp, hentry⟩ := List.mem_filter.mp hp
    obtain ⟨messages, hms⟩ := exists_contractMessages h hd
    obtain ⟨m, hm, href⟩ := exists_message_of_named hms hp (by simpa using hentry)
    have hwalked : Walked options request annotations m := ⟨d, hd, messages, hms, hm⟩
    have hfull : m.fullName = t.fullName := (congrArg TypeRef.fullName href).trans hsame
    exact ⟨m, hwalked, hmessage m hwalked hfull⟩
  · intro d hd hl hmem
    obtain ⟨p, hp, hsame⟩ := List.mem_map.mp hmem
    obtain ⟨file, hfile, hname, hes, -⟩ :=
      exists_file_of_listed h hd (List.contains_iff_mem.mpr hl)
    obtain ⟨e, he, href⟩ :=
      exists_enumeration_of_named (s := .ofDescriptor options request annotations d) hp
    rw [← hes] at he
    have hfull : e.fullName = t.fullName := (congrArg TypeRef.fullName href).trans hsame
    exact ⟨file, hfile, hname, e, he, henumeration file hfile e he hfull⟩

theorem kindRefers_of_kindOf (hn : request.typeNames.Nodup)
    (h : (contractFiles options request annotations).result = .ok files) {referrer : String}
    {f : Descriptor.Field} {kind : Kind}
    (hk : (kindOf (registryOf options request annotations) referrer f).result = .ok kind) :
    KindRefers options request annotations files f kind :=
  ⟨isSome_typeRef?_of_kindOf hk, fun _ ht => refersTo_of_typeRefOf hn h (typeRef?_of_kindOf hk ht)⟩

theorem fieldRefers_of_contractField (hn : request.typeNames.Nodup)
    (h : (contractFiles options request annotations).result = .ok files) {s : SourceFile}
    {d : DeclaredMessage} {j : Nat} {f : Descriptor.Field} {field : Field}
    (hf : (contractField (registryOf options request annotations) s d j f).result = .ok field) :
    FieldRefers options request annotations files f field := by
  obtain ⟨kind, cardinality, hk, hc, rfl⟩ := contractField_eq_ok_iff.mp hf
  refine ⟨kindRefers_of_kindOf hn h hk, ?_⟩
  intro key value hmap
  obtain rfl : cardinality = .map key value := hmap
  rcases cardinalityOf_eq_ok_iff.mp hc with ⟨-, hnone⟩ | ⟨entry, k, v, hentry, hkey, hvalue, heq⟩
  · split at hnone <;> exact absurd hnone (by simp)
  · obtain ⟨rfl, rfl⟩ := Cardinality.map.inj heq
    exact ⟨entry, (mapEntryOf_eq_some_iff hn).mp hentry, kindRefers_of_kindOf hn h hkey,
      kindRefers_of_kindOf hn h hvalue⟩

theorem messageRefers_of_walked (hn : request.typeNames.Nodup)
    (h : (contractFiles options request annotations).result = .ok files) {m : Message}
    (hm : Walked options request annotations m) :
    MessageRefers options request annotations files m := by
  obtain ⟨d, hd, messages, hms, hmem⟩ := hm
  obtain ⟨declared, hdeclared, hok⟩ :=
    exists_left_of_forall₂ (contractMessages_eq_ok_iff.mp hms) m hmem
  obtain ⟨hdeclared, hentry⟩ := List.mem_filter.mp hdeclared
  obtain ⟨fields, hfields, rfl⟩ := contractMessage_eq_ok_iff.mp hok
  refine ⟨⟨(declared.fullName, declared.descriptor), ?_, rfl, rfl, by simpa using hentry, ?_⟩,
    fun c hc => mem_of_mem_contractChoices hc⟩
  · refine List.mem_flatMap.mpr ⟨d, hd, ?_⟩
    rw [← declaredMessages_map d (annotations.file? d.name)]
    exact List.mem_map_of_mem hdeclared
  · exact ByIndex.forall₂ (fun _ _ _ hf => fieldRefers_of_contractField hn h hf) hfields

/-- **One package per type.** Where no two declarations have one name, every reference in a kind, a
key or a value has the simple name and the class package of the file that declares it, as have the
message and the enumeration of its full name. -/
theorem onePackage_of_contractFiles (hn : request.typeNames.Nodup)
    (h : (contractFiles options request annotations).result = .ok files) :
    OnePackage options request annotations files := by
  obtain ⟨all, hall, hfiles⟩ := forall₂_of_contractFiles h
  refine ⟨fun t t' ht ht' => ht.unique hn ht', ?_, ?_, ?_⟩
  · exact fun m hm => ⟨declared_of_walked hm, messageRefers_of_walked hn h hm⟩
  · exact fun file hfile e he => declared_of_mem_enumerations h hfile he
  · intro file hfile
    obtain ⟨d, hd, messages, hms, hok⟩ := exists_left_of_forall₂ hfiles file hfile
    obtain ⟨services, hservices, rfl⟩ := contractFile_eq_ok_iff.mp hok
    refine ⟨fun m hm => ⟨d, (List.mem_filter.mp hd).1, messages, hms, hm⟩, ?_⟩
    intro s hs method hmethod
    obtain ⟨hi, ho⟩ := mem_of_contractServices hservices hs hmethod
    exact ⟨hall _ hi, hall _ ho⟩

/-- A listed file that refers to files before and behind it. Of these one keeps the package that it
asks for and one asks for none. -/
def harbourRequest : Descriptor.Request where
  listed := ["harbour.proto"]
  files := [{
      name? := some "ships.proto"
      package := "ships"
      javaPackage := some "org.ships"
      messages := [{
        name := "Ship"
        fields := [{ name := "berth", type := some 11, typeName := ".harbour.Berth" }]
        enumerations := [⟨"Flag", ["RED", "GREEN"]⟩] }] },
    { name? := some "harbour.proto"
      package := "harbour"
      javaPackage := some "org.harbour"
      messages := [{
        name := "Berth"
        fields :=
          [{ name := "ships", label := 3, type := some 11,
             typeName := ".harbour.Berth.ShipsEntry" },
           { name := "goods", label := 3, type := some 11, typeName := ".goods.Crate" }]
        nested := [{
          name := "ShipsEntry"
          isMapEntry := true
          fields :=
            [{ name := "key", number := 1, type := some 14, typeName := ".ships.Ship.Flag" },
             { name := "value", number := 2, type := some 11, typeName := "..ships.Ship" }] }] }]
      services := [⟨"Pilot", [⟨"Guide", ".ships.Ship", ".harbour.Berth"⟩]⟩] },
    { name? := some "goods.proto", package := "goods", messages := [{ name := "Crate" }] }]

/-- The references have the packages `org.ships`, `port.dto` and `goods.dto`. -/
theorem onePackage_harbourRequest : harbourRequest.typeNames.Nodup ∧ ∃ files,
    (contractFiles { basePackage := some "port" } harbourRequest {}).result = .ok files ∧
      OnePackage { basePackage := some "port" } harbourRequest {} files := by
  have hn : harbourRequest.typeNames.Nodup := by decide +kernel
  obtain ⟨files, h⟩ : ∃ files,
      (contractFiles { basePackage := some "port" } harbourRequest {}).result = .ok files :=
    exists_ok_of_isOk (by decide +kernel)
  exact ⟨hn, files, h, onePackage_of_contractFiles hn h⟩

end

end Contract

end RestScaffold
