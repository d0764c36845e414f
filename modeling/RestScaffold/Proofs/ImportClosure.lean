import RestScaffold.Proofs.Bindings
import RestScaffold.Proofs.Generation
import RestScaffold.Proofs.References

/-! # Imports are generated

A class that a generated source mentions is generated as well, if the file that declares it is
listed.

* `LeadsTo`: the path that an import leads to;
* `ClassGenerated`, `InterfaceGenerated`: one class is among the output files, under that path;
* `ImportsClosed`: so is every class that the sources of a run mention;
* `importsClosed_of_generate`: the files of a run are closed under imports. -/

namespace RestScaffold

open Contract Target

/-! ### Requests -/

namespace Descriptor

/-- Map entries have a key and a value, and only repeated fields refer to them. -/
structure Request.MapEntriesUsed (r : Request) : Prop where
  key : ∀ p ∈ r.namedMessages, p.2.isMapEntry → ∃ f ∈ p.2.fields, f.number = 1
  value : ∀ p ∈ r.namedMessages, p.2.isMapEntry → ∃ f ∈ p.2.fields, f.number = 2
  repeated : ∀ p ∈ r.namedMessages, p.2.isMapEntry → ∀ q ∈ r.namedMessages, ∀ f ∈ q.2.fields,
    referredName f.typeName = p.1 → f.label = repeatedLabel

/-- No map entry is the key or the value of another. -/
def Request.MapEntriesFlat (r : Request) : Prop :=
  ∀ p ∈ r.namedMessages, p.2.isMapEntry → ∀ q ∈ r.namedMessages, q.2.isMapEntry →
    ∀ f ∈ q.2.fields, f.number = 1 ∨ f.number = 2 → referredName f.typeName ≠ p.1

instance (r : Request) : Decidable r.MapEntriesFlat :=
  inferInstanceAs (Decidable (∀ p ∈ r.namedMessages, _))

/-- A listed file declares the full name. -/
def Request.DeclaresListed (r : Request) (fullName : String) : Prop :=
  ∃ d ∈ r.files, r.listed.contains d.name = true ∧ fullName ∈ d.typeNames

end Descriptor

/-! ### Generated classes -/

/-- The path that the import of a class leads to: the dots of its package become slashes. -/
def LeadsTo (importPath name path : String) : Prop :=
  (importPath = name ∧ path = name ++ ".java") ∨ ∃ package, importPath = package ++ "." ++ name ∧
    path = Naming.packagePath package ++ "/" ++ name ++ ".java"

theorem leadsTo_sourcePath (package name : String) :
    LeadsTo (Naming.qualify package name) name (sourcePath package name) := by
  by_cases h : package = ""
  · exact Or.inl ⟨by simp [Naming.qualify, h], by simp [sourcePath, h]⟩
  · exact Or.inr ⟨package, by simp [Naming.qualify, h], by simp [sourcePath, h]⟩

/-- The content of the output file of an artifact. -/
def contentOf (request : Descriptor.Request) (a : Artifact) : String :=
  banner request.compiler ++ "\n\n" ++ a.text

/-- An output file is rendered from the message or the enumeration of a full name. -/
def RenderedFrom (request : Descriptor.Request) (files : List File) (fullName : String)
    (o : OutputFile) : Prop :=
  ∃ file ∈ files,
    (∃ m ∈ file.messages, m.fullName = fullName ∧
      o.content = contentOf request (.bean (.ofMessage m))) ∨
    (∃ e ∈ file.enumerations, e.fullName = fullName ∧
      o.content = contentOf request (.enumClass (.ofEnumeration e)))

/-- If a listed file declares it, the class of a declaration is among the output files. -/
def ClassGenerated (request : Descriptor.Request) (files : List File) (outputs : List OutputFile)
    (t : TypeRef) : Prop :=
  request.DeclaresListed t.fullName → ∃ o ∈ outputs,
    LeadsTo t.importPath t.name o.name ∧ RenderedFrom request files t.fullName o

/-- The interface that the controller of a service imports is among the output files. -/
def InterfaceGenerated (request : Descriptor.Request) (options : Options) (file : File)
    (s : Service) (outputs : List OutputFile) : Prop :=
  ∃ interface controller, ServiceInterface.ofService options file s = .ok interface ∧
    Controller.ofService options file s = .ok controller ∧
    serviceImport options file s ∈ controller.imports ∧ ∃ o ∈ outputs,
      LeadsTo (serviceImport options file s) (serviceName s) o.name ∧
      o.content = contentOf request (.serviceInterface interface)

/-- All classes that the sources of a run mention are generated, as far as listed files declare
them. -/
structure ImportsClosed (request : Descriptor.Request) (options : Options) (files : List File)
    (outputs : List OutputFile) : Prop where
  fields : ∀ file ∈ files, ∀ m ∈ file.messages, ∀ f ∈ m.fields, ∀ t ∈ (JavaType.ofField f).refs,
    ClassGenerated request files outputs t
  methods : ∀ file ∈ files, ∀ s ∈ file.services, ∀ method ∈ s.methods,
    ClassGenerated request files outputs method.input.ref ∧
      ClassGenerated request files outputs method.output.ref
  services : ∀ file ∈ files, ∀ s ∈ file.services,
    InterfaceGenerated request options file s outputs

/-! ### Classes among the output files -/

section

variable {options : Options} {request : Descriptor.Request} {annotations : Annotated.Request}
  {files : List File} {outputs : List OutputFile}

/-- The artifacts of all files are among the output files. -/
def ArtifactsPublished (request : Descriptor.Request) (options : Options) (files : List File)
    (outputs : List OutputFile) : Prop :=
  ∀ file ∈ files, ∃ gs, artifactsOf options file = .ok gs ∧
    ∀ g ∈ gs, (⟨g.artifact.path, contentOf request g.artifact⟩ : OutputFile) ∈ outputs

theorem artifactsPublished_of_generate (h : (generate request annotations).result = .ok outputs) :
    ∃ options files, Options.parse request.parameter = .ok options ∧
      (contractFiles options request annotations).result = .ok files ∧
      ArtifactsPublished request options files outputs := by
  obtain ⟨options, files, gss, ho, hf, hgss, rfl, -⟩ := generate_eq_ok_iff.mp h
  refine ⟨options, files, ho, hf, fun file hfile => ?_⟩
  obtain ⟨gs, hgs, hok⟩ := exists_right_of_forall₂ hgss file hfile
  refine ⟨gs, hok, fun g hg => ?_⟩
  exact List.mem_map.mpr ⟨g, List.mem_flatten.mpr ⟨gs, hgs, hg⟩, rfl⟩

theorem bean_mem_outputs (hp : ArtifactsPublished request options files outputs) {file : File}
    (hfile : file ∈ files) {m : Message} (hm : m ∈ file.messages) :
    (⟨sourcePath m.package m.name, contentOf request (.bean (.ofMessage m))⟩ : OutputFile) ∈
      outputs := by
  obtain ⟨gs, hok, hgs⟩ := hp file hfile
  obtain ⟨services, -, rfl⟩ := artifactsOf_eq_ok_iff.mp hok
  have hbean := List.mem_map_of_mem
    (f := fun m => (⟨.bean (.ofMessage m), m.fullName⟩ : Generated)) hm
  exact hgs _ (List.mem_append_left _ (List.mem_append_left _ hbean))

theorem enumClass_mem_outputs (hp : ArtifactsPublished request options files outputs) {file : File}
    (hfile : file ∈ files) {e : Enumeration} (he : e ∈ file.enumerations) :
    (⟨sourcePath e.package e.name, contentOf request (.enumClass (.ofEnumeration e))⟩ :
      OutputFile) ∈ outputs := by
  obtain ⟨gs, hok, hgs⟩ := hp file hfile
  obtain ⟨services, -, rfl⟩ := artifactsOf_eq_ok_iff.mp hok
  have hclass := List.mem_map_of_mem
    (f := fun e => (⟨.enumClass (.ofEnumeration e), e.fullName⟩ : Generated)) he
  exact hgs _ (List.mem_append_left _ (List.mem_append_right _ hclass))

theorem interfaceGenerated_of_artifactsPublished
    (hp : ArtifactsPublished request options files outputs) {file : File} (hfile : file ∈ files)
    {s : Service} (hs : s ∈ file.services) :
    InterfaceGenerated request options file s outputs := by
  obtain ⟨gs, hok, hgs⟩ := hp file hfile
  obtain ⟨services, hservices, rfl⟩ := artifactsOf_eq_ok_iff.mp hok
  obtain ⟨two, htwo, interface, controller, hi, hc, rfl⟩ := exists_right_of_forall₂ hservices s hs
  have hmem := hgs ⟨.serviceInterface interface, s.fullName⟩
    (List.mem_append_right _ (List.mem_flatten.mpr ⟨_, htwo, List.mem_cons_self⟩))
  have himport : serviceImport options file s ∈ controller.imports := by
    obtain ⟨endpoints, -, rfl⟩ := Controller.ofService_eq_ok_iff.mp hc
    simp [controllerImports]
  refine ⟨interface, controller, hi, hc, himport, _, hmem, ?_, rfl⟩
  obtain ⟨operations, -, rfl⟩ := ServiceInterface.ofService_eq_ok_iff.mp hi
  exact leadsTo_sourcePath (servicePackage options file) (serviceName s)

end

/-! ### Closure -/

section

variable {options : Options} {request : Descriptor.Request} {annotations : Annotated.Request}
  {files : List File} {outputs : List OutputFile}

theorem classGenerated_message (hn : request.typeNames.Nodup)
    (hf : (contractFiles options request annotations).result = .ok files)
    (hp : ArtifactsPublished request options files outputs) {d : Descriptor.File}
    (hd : d ∈ request.files) {p : String × Descriptor.Message} (hmem : p ∈ d.namedMessages)
    (he : p.2.isMapEntry = false) :
    ClassGenerated request files outputs ⟨p.2.name, p.1,
      (SourceFile.ofDescriptor options request annotations d).beanPackage⟩ := by
  rintro ⟨d', hd', hl, hname⟩
  have hown : p.1 ∈ d.typeNames := List.mem_append_left _ (List.mem_map_of_mem hmem)
  obtain rfl := eq_of_mem_typeNames hn hd hd' hown hname
  obtain ⟨file, hfile, -, -, hms⟩ := exists_file_of_listed hf hd hl
  obtain ⟨m, hm, hr⟩ := exists_message_of_named hms hmem he
  obtain ⟨hname, hfull, hpackage⟩ : m.name = p.2.name ∧ m.fullName = p.1 ∧ m.package = _ := by
    simpa [Message.ref] using hr
  refine ⟨_, bean_mem_outputs hp hfile hm, ?_, file, hfile, Or.inl ⟨m, hm, hfull, rfl⟩⟩
  rw [hname, hpackage]
  exact leadsTo_sourcePath _ p.2.name

theorem classGenerated_enumeration (hn : request.typeNames.Nodup)
    (hf : (contractFiles options request annotations).result = .ok files)
    (hp : ArtifactsPublished request options files outputs) {d : Descriptor.File}
    (hd : d ∈ request.files) {p : String × Descriptor.Enumeration}
    (hmem : p ∈ d.namedEnumerations) :
    ClassGenerated request files outputs ⟨p.2.name, p.1,
      (SourceFile.ofDescriptor options request annotations d).beanPackage⟩ := by
  rintro ⟨d', hd', hl, hname⟩
  have hown : p.1 ∈ d.typeNames := List.mem_append_right _ (List.mem_map_of_mem hmem)
  obtain rfl := eq_of_mem_typeNames hn hd hd' hown hname
  obtain ⟨file, hfile, -, hes, -⟩ := exists_file_of_listed hf hd hl
  obtain ⟨e, hmem, hr⟩ :=
    exists_enumeration_of_named (s := .ofDescriptor options request annotations d) hmem
  obtain ⟨hname, hfull, hpackage⟩ : e.name = p.2.name ∧ e.fullName = p.1 ∧ e.package = _ := by
    simpa [Enumeration.ref] using hr
  rw [← hes] at hmem
  refine ⟨_, enumClass_mem_outputs hp hfile hmem, ?_, file, hfile, Or.inr ⟨e, hmem, hfull, rfl⟩⟩
  rw [hname, hpackage]
  exact leadsTo_sourcePath _ p.2.name

/-- What a name was resolved to is generated, unless it is a map entry. -/
theorem classGenerated_of_typeRefOf (hn : request.typeNames.Nodup)
    (hf : (contractFiles options request annotations).result = .ok files)
    (hp : ArtifactsPublished request options files outputs) {referrer : String}
    {f : Descriptor.Field} {t : TypeRef}
    (h : typeRefOf (registryOf options request annotations) referrer f = .ok t)
    (hentry : ∀ p ∈ request.namedMessages, p.2.isMapEntry → referredName f.typeName ≠ p.1) :
    ClassGenerated request files outputs t := by
  obtain ⟨e, he, rfl⟩ := typeRefOf_eq_ok_iff.mp h
  obtain ⟨hname, d, hd, ⟨p, hmem, rfl⟩ | ⟨p, hmem, rfl⟩⟩ := exists_of_resolve? he
  · rw [← hname]
    refine classGenerated_message hn hf hp hd hmem ?_
    rw [← Bool.not_eq_true]
    exact fun hm => hentry p (List.mem_flatMap.mpr ⟨d, hd, hmem⟩) hm hname.symm
  · rw [← hname]
    exact classGenerated_enumeration hn hf hp hd hmem

theorem exists_mapEntry? {m : Descriptor.Message} (hm : m.isMapEntry = true)
    (hkey : ∃ f ∈ m.fields, f.number = 1) (hvalue : ∃ f ∈ m.fields, f.number = 2) :
    ∃ entry, mapEntry? m = some entry := by
  obtain ⟨key, hk⟩ : ∃ key, m.fields.find? (·.number = 1) = some key := by
    rw [← Option.isSome_iff_exists, List.find?_isSome]
    simpa using hkey
  obtain ⟨value, hv⟩ : ∃ value, m.fields.find? (·.number = 2) = some value := by
    rw [← Option.isSome_iff_exists, List.find?_isSome]
    simpa using hvalue
  refine ⟨⟨key, value⟩, ?_⟩
  unfold mapEntry?
  rw [if_pos hm, hk, hv]

theorem mem_of_mapEntry? {m : Descriptor.Message} {entry : MapEntry}
    (h : mapEntry? m = some entry) : m.isMapEntry = true ∧
      (entry.key ∈ m.fields ∧ entry.key.number = 1) ∧
      (entry.value ∈ m.fields ∧ entry.value.number = 2) := by
  unfold mapEntry? at h
  split at h
  · rename_i hm
    split at h
    · rename_i key value hk hv
      obtain rfl := Option.some.inj h
      exact ⟨hm, ⟨List.mem_of_find?_eq_some hk, by simpa using List.find?_some hk⟩,
        ⟨List.mem_of_find?_eq_some hv, by simpa using List.find?_some hv⟩⟩
    · exact absurd h (by simp)
  · exact absurd h (by simp)

/-- No field by which a type mentions declarations refers to a map entry. -/
theorem ne_of_mem_mentionedFields (hn : request.typeNames.Nodup) (hu : request.MapEntriesUsed)
    (hflat : request.MapEntriesFlat) {q : String × Descriptor.Message}
    (hq : q ∈ request.namedMessages) {f g : Descriptor.Field} (hf : f ∈ q.2.fields)
    (hg : g ∈ mentionedFields (registryOf options request annotations) f) :
    ∀ p ∈ request.namedMessages, p.2.isMapEntry → referredName g.typeName ≠ p.1 := by
  intro p hp hm hname
  cases hentry : mapEntryOf (registryOf options request annotations) f with
  | none =>
      -- A field that refers to a map entry is repeated, and would have found it.
      obtain rfl : g = f := by
        simpa [mentionedFields, hentry] using hg
      rw [mapEntryOf, if_pos (hu.repeated p hp hm q hq g hf hname)] at hentry
      obtain ⟨d, hd, hpd⟩ := List.mem_flatMap.mp hp
      obtain ⟨entry, he⟩ := exists_mapEntry? hm (hu.key p hp hm) (hu.value p hp hm)
      have hfound : (registryOf options request annotations).resolve? g.typeName =
          some (messageDeclaration
            (SourceFile.ofDescriptor options request annotations d).beanPackage p) := by
        refine (find?_eq_some_iff (nodup_registryOf hn)).mpr ⟨?_, hname.symm⟩
        rw [registryOf_declarations]
        refine List.mem_flatMap.mpr ⟨d, hd, (declarations_perm _).mem_iff.mpr ?_⟩
        exact List.mem_append_left _ (List.mem_map_of_mem hpd)
      rw [hfound, Option.bind_some, messageDeclaration, he] at hentry
      exact absurd hentry (by simp)
  | some entry =>
      -- Key and value of the entry do not refer to map entries.
      obtain ⟨e, he, hsome⟩ : ∃ e, (registryOf options request annotations).resolve? f.typeName =
          some e ∧ e.entry = some entry := by
        unfold mapEntryOf at hentry
        split at hentry
        · exact Option.bind_eq_some_iff.mp hentry
        · exact absurd hentry (by simp)
      obtain ⟨-, d, hd, ⟨r, hr, rfl⟩ | ⟨r, hr, rfl⟩⟩ := exists_of_resolve? he
      · obtain ⟨hm', ⟨hk, hk1⟩, ⟨hv, hv2⟩⟩ := mem_of_mapEntry? hsome
        have hflat' := hflat p hp hm r (List.mem_flatMap.mpr ⟨d, hd, hr⟩) hm'
        have hg' : g = entry.key ∨ g = entry.value := by
          simpa [mentionedFields, hentry] using hg
        rcases hg' with rfl | rfl
        · exact hflat' _ hk (Or.inl hk1) hname
        · exact hflat' _ hv (Or.inr hv2) hname
      · exact absurd hsome (by simp [enumerationDeclaration])

theorem classGenerated_of_mem_refs (hn : request.typeNames.Nodup) (hu : request.MapEntriesUsed)
    (hflat : request.MapEntriesFlat)
    (hf : (contractFiles options request annotations).result = .ok files)
    (hp : ArtifactsPublished request options files outputs) {file : File} (hfile : file ∈ files)
    {m : Message} (hm : m ∈ file.messages) {field : Field} (hfield : field ∈ m.fields)
    {t : TypeRef} (ht : t ∈ (JavaType.ofField field).refs) :
    ClassGenerated request files outputs t := by
  obtain ⟨all, -, hfiles⟩ := forall₂_of_contractFiles hf
  obtain ⟨d, hd, messages, hms, hok⟩ := exists_left_of_forall₂ hfiles file hfile
  obtain ⟨services, -, rfl⟩ := contractFile_eq_ok_iff.mp hok
  obtain ⟨q, hq, -, -, hfields⟩ := exists_named_of_message hms hm
  obtain ⟨f, hfq, dm, j, hresolved⟩ := hfields field hfield
  have hq' : q ∈ request.namedMessages :=
    List.mem_flatMap.mpr ⟨d, (List.mem_filter.mp hd).1, hq⟩
  obtain ⟨g, hg, href⟩ := exists_typeRefOf_of_mem_refs hresolved ht
  have hentry := ne_of_mem_mentionedFields hn hu hflat hq' hfq hg
  exact classGenerated_of_typeRefOf hn hf hp href hentry

theorem classGenerated_of_mem_methods (hn : request.typeNames.Nodup)
    (hf : (contractFiles options request annotations).result = .ok files)
    (hp : ArtifactsPublished request options files outputs) {file : File} (hfile : file ∈ files)
    {s : Service} (hs : s ∈ file.services) {method : Method}
    (hmethod : method ∈ s.methods) :
    ClassGenerated request files outputs method.input.ref ∧
      ClassGenerated request files outputs method.output.ref := by
  obtain ⟨all, hall, hfiles⟩ := forall₂_of_contractFiles hf
  have hmessage : ∀ m ∈ all, ClassGenerated request files outputs m.ref := by
    intro m hm
    obtain ⟨d, hd, messages, hms, hmem⟩ := hall m hm
    obtain ⟨p, hpd, he, href, -⟩ := exists_named_of_message hms hmem
    rw [href]
    exact classGenerated_message hn hf hp hd hpd he
  obtain ⟨d, hd, messages, hms, hok⟩ := exists_left_of_forall₂ hfiles file hfile
  obtain ⟨services, hservices, rfl⟩ := contractFile_eq_ok_iff.mp hok
  obtain ⟨hi, ho⟩ := mem_of_contractServices hservices hs hmethod
  exact ⟨hmessage method.input hi, hmessage method.output ho⟩

/-- **Imports are generated.** Where full names are used once, map entries have a key and a value
that are no map entries themselves, and only repeated fields refer to them, every run that goes
through generates all classes that its sources mention, as far as listed files declare them. -/
theorem importsClosed_of_generate (hn : request.typeNames.Nodup) (hu : request.MapEntriesUsed)
    (hflat : request.MapEntriesFlat) (h : (generate request annotations).result = .ok outputs) :
    ∃ options files, Options.parse request.parameter = .ok options ∧
      (contractFiles options request annotations).result = .ok files ∧
      ImportsClosed request options files outputs := by
  obtain ⟨options, files, ho, hf, hp⟩ := artifactsPublished_of_generate h
  refine ⟨options, files, ho, hf, ?_, ?_, ?_⟩
  · intro file hfile m hm field hfield t ht
    exact classGenerated_of_mem_refs hn hu hflat hf hp hfile hm hfield ht
  · intro file hfile s hs method hmethod
    exact classGenerated_of_mem_methods hn hf hp hfile hs hmethod
  · intro file hfile s hs
    exact interfaceGenerated_of_artifactsPublished hp hfile hs

end

/-- A file with a map of messages, an enumeration and a service. -/
def shelfRequest : Descriptor.Request where
  listed := ["lib.proto"]
  files := [{
    name? := some "lib.proto"
    package := "lib"
    messages := [
      { name := "Shelf"
        fields := [
          { name := "books", number := 1, label := 3, type := some 11,
            typeName := ".lib.Shelf.BooksEntry" },
          { name := "genre", number := 2, type := some 14, typeName := ".lib.Genre" }]
        nested := [{
          name := "BooksEntry"
          isMapEntry := true
          fields := [{ name := "key", number := 1, type := some 9 },
            { name := "value", number := 2, type := some 11, typeName := ".lib.Book" }] }] },
      { name := "Book" }]
    enumerations := [{ name := "Genre", values := ["POETRY"] }]
    services := [{
      name := "Shelves"
      methods := [{ name := "Put", input := ".lib.Book", output := ".lib.Shelf" }] }] }]

theorem importsClosed_shelfRequest : ∃ outputs options files,
    (generate shelfRequest {}).result = .ok outputs ∧
    Options.parse shelfRequest.parameter = .ok options ∧
    (contractFiles options shelfRequest {}).result = .ok files ∧
    ImportsClosed shelfRequest options files outputs := by
  obtain ⟨outputs, h⟩ : ∃ outputs, (generate shelfRequest {}).result = .ok outputs :=
    exists_ok_of_isOk (by decide +kernel)
  obtain ⟨options, files, ho, hf, hclosed⟩ := importsClosed_of_generate (by decide +kernel)
    ⟨by decide +kernel, by decide +kernel, by decide +kernel⟩ (by decide +kernel) h
  exact ⟨outputs, options, files, h, ho, hf, hclosed⟩

/-- A map whose entry has a repeated value that is again a map entry. -/
def nestedMapsRequest : Descriptor.Request where
  listed := ["p.proto"]
  files := [{
    name? := some "p.proto"
    package := "p"
    messages := [{
      name := "M"
      fields := [{ name := "f", number := 1, label := 3, type := some 11,
                   typeName := ".p.M.AEntry" }]
      nested := [
        { name := "AEntry"
          isMapEntry := true
          fields := [{ name := "key", number := 1, type := some 9 },
            { name := "value", number := 2, label := 3, type := some 11,
              typeName := ".p.M.BEntry" }] },
        { name := "BEntry"
          isMapEntry := true
          fields := [{ name := "key", number := 1, type := some 9 },
            { name := "value", number := 2, type := some 9 }] }] }] }]

/-- A map entry that is the value of another is mentioned, and no class is generated for it. -/
theorem not_forall_importsClosed : ¬ ∀ (request : Descriptor.Request)
    (annotations : Annotated.Request) (outputs : List OutputFile), request.typeNames.Nodup →
      request.MapEntriesUsed → (generate request annotations).result = .ok outputs →
        ∃ options files, Options.parse request.parameter = .ok options ∧
          (contractFiles options request annotations).result = .ok files ∧
          ImportsClosed request options files outputs := by
  intro hall
  obtain ⟨outputs, h⟩ : ∃ outputs, (generate nestedMapsRequest {}).result = .ok outputs :=
    exists_ok_of_isOk (by decide +kernel)
  obtain ⟨options, files, ho, hf, hclosed⟩ := hall nestedMapsRequest {} outputs
    (by decide +kernel) ⟨by decide +kernel, by decide +kernel, by decide +kernel⟩ h
  obtain rfl : {} = options := Except.ok.inj ho
  -- The only message of the contract is `M`, and the type of its field mentions the inner entry.
  have hfiles : (match (contractFiles {} nestedMapsRequest {}).result with
      | .ok files =>
        files.all (fun file => file.messages.all (·.fullName ≠ "p.M.BEntry") &&
          file.enumerations.all (·.fullName ≠ "p.M.BEntry")) &&
        files.any fun file => file.messages.any fun m => m.fields.any fun f =>
          (JavaType.ofField f).refs.contains ⟨"BEntry", "p.M.BEntry", "p.dto"⟩
      | .error _ => false) = true := by
    decide +kernel
  rw [hf] at hfiles
  simp only [Bool.and_eq_true, List.all_eq_true, List.any_eq_true, List.contains_iff_mem,
    decide_eq_true_eq] at hfiles
  obtain ⟨hnone, file, hfile, m, hm, f, hfield, ht⟩ := hfiles
  have hdeclared : nestedMapsRequest.DeclaresListed "p.M.BEntry" :=
    ⟨_, List.mem_cons_self, by decide +kernel, by decide +kernel⟩
  obtain ⟨o, -, -, file', hfile', hfrom⟩ := hclosed.fields file hfile m hm f hfield _ ht hdeclared
  rcases hfrom with ⟨m', hm', hname, -⟩ | ⟨e, he, hname, -⟩
  · exact (hnone file' hfile').1 m' hm' hname
  · exact (hnone file' hfile').2 e he hname

end RestScaffold
