import RestScaffold.Proofs.ImportClosure
import RestScaffold.Proofs.Imports

/-! # Import clashes

A source names classes by their simple names, and its imports are told apart by their paths. Two
classes of one simple name and different packages that meet in a source therefore clash.

* `ClassName.simple`, `ClassName.ImportedByName`: the simple name of a class, and the classes that
  have an import line of their own;
* `clash_iff_of_plain`: what a clash is where names have no dots;
* `SourceUses`: the artifacts of a run with the classes that they import;
* `SourceUses.exists_classImports_iff`: the import lines of an artifact are those of these classes;
* `ImportNames`, `importNames_of_generate`: which simple names the import lines of a source take;
* `not_forall_imports_unambiguous`: a run in which they take a name twice. -/

namespace RestScaffold

open Contract (File Service Message contractFiles)

namespace Target

open Text (HasLine)

/-! ### Names and clashes -/

/-- The name that a source has for all classes of a package. -/
def everyClass : String := "*"

namespace ClassName

/-- The name by which a source that imports the class goes on. -/
def simple (c : ClassName) : String :=
  simpleName c.path

/-- A source of `package` has an import line for the class alone. -/
def ImportedByName (package : String) (c : ClassName) : Prop :=
  IsImported package c.path ∧ c.simple ≠ everyClass

/-- Both classes are imported by a source of `package`, and they have one simple name. -/
def Clash (package : String) (c d : ClassName) : Prop :=
  c.ImportedByName package ∧ d.ImportedByName package ∧ c.path ≠ d.path ∧ c.simple = d.simple

theorem path_inj {c d : ClassName} (hc : c.Plain) (hd : d.Plain) :
    c.path = d.path ↔ c.package = d.package ∧ c.name = d.name := by
  constructor
  · intro h
    exact ⟨by rw [← importOwner_path hc, h, importOwner_path hd],
      by rw [← simpleName_path hc, h, simpleName_path hd]⟩
  · rintro ⟨hp, hn⟩
    rw [path, path, hp, hn]

/-- Where names have no dots, the classes that clash are those of one name and of different
packages, neither of which is the source's own or `java.lang`. -/
theorem clash_iff_of_plain {package : String} {c d : ClassName} (hc : c.Plain) (hd : d.Plain) :
    c.Clash package d ↔ (c.Foreign package ∧ d.Foreign package) ∧ c.name ≠ everyClass ∧
      c.package ≠ d.package ∧ c.name = d.name := by
  have hpath := path_inj hc hd
  simp only [Clash, ImportedByName, isImported_path_iff hc, isImported_path_iff hd, simple,
    simpleName_path hc, simpleName_path hd, ne_eq, hpath]
  constructor
  · rintro ⟨⟨hfc, hne⟩, ⟨hfd, -⟩, hdiff, hname⟩
    exact ⟨⟨hfc, hfd⟩, hne, fun hp => hdiff ⟨hp, hname⟩, hname⟩
  · rintro ⟨⟨hfc, hfd⟩, hne, hdiff, hname⟩
    exact ⟨⟨hfc, hne⟩, ⟨hfd, hname ▸ hne⟩, fun h => hdiff h.1, hname⟩

end ClassName

/-! ### The import lines of a source -/

/-- The imports of an artifact that name a single class. -/
def Artifact.classImports (a : Artifact) : List String :=
  a.importedPaths.filter fun path => simpleName path ≠ everyClass

/-- The artifacts that a run makes for its contract files, each with the classes that it imports. -/
inductive SourceUses (options : Options) (files : List File) : Artifact → List ClassName → Prop
  | bean {file : File} {m : Message} (hfile : file ∈ files) (hm : m ∈ file.messages) :
      SourceUses options files (.bean (.ofMessage m)) (beanUses m)
  | enumClass {file : File} {e : Contract.Enumeration} (hfile : file ∈ files)
      (he : e ∈ file.enumerations) :
      SourceUses options files (.enumClass (.ofEnumeration e)) []
  | serviceInterface {file : File} {s : Service} {i : ServiceInterface} (hfile : file ∈ files)
      (hs : s ∈ file.services) (hi : ServiceInterface.ofService options file s = .ok i) :
      SourceUses options files (.serviceInterface i) (interfaceUses s)
  | controller {file : File} {s : Service} {c : Controller} (hfile : file ∈ files)
      (hs : s ∈ file.services) (hc : Controller.ofService options file s = .ok c) :
      SourceUses options files (.controller c) (controllerUses options file s)

variable {options : Options} {files : List File} {a : Artifact} {uses : List ClassName}

/-- What an artifact asks to import is what it uses, and the annotations of the framework. -/
theorem SourceUses.mem_imports_iff (h : SourceUses options files a uses) {path : String}
    (hpath : simpleName path ≠ everyClass) : path ∈ a.imports ↔ ∃ c ∈ uses, c.path = path := by
  cases h with
  | bean hfile hm => exact mem_allImports_iff
  | enumClass hfile he => simp [Artifact.imports]
  | serviceInterface hfile hs hi => exact mem_interfaceImports_iff hi
  | controller hfile hs hc =>
      have hspring : path ≠ springImport := by
        rintro rfl
        exact hpath (by decide +kernel)
      exact (mem_controllerImports_iff hc).trans (or_iff_right hspring)

theorem SourceUses.exists_classImports_iff (h : SourceUses options files a uses)
    (P : String → Prop) : (∃ path ∈ a.classImports, P path) ↔
      ∃ c ∈ uses, c.ImportedByName a.package ∧ P c.path := by
  have hmem : ∀ path, path ∈ a.classImports ↔
      (path ∈ a.imports ∧ IsImported a.package path) ∧ simpleName path ≠ everyClass := by
    intro path
    rw [Artifact.classImports, List.mem_filter, decide_eq_true_iff, Artifact.importedPaths,
      mem_importedPaths]
  constructor
  · rintro ⟨path, hpath, hP⟩
    obtain ⟨⟨hasked, himported⟩, hsimple⟩ := (hmem path).mp hpath
    obtain ⟨c, hc, rfl⟩ := (h.mem_imports_iff hsimple).mp hasked
    exact ⟨c, hc, ⟨himported, hsimple⟩, hP⟩
  · rintro ⟨c, hc, ⟨himported, hsimple⟩, hP⟩
    have hasked := (h.mem_imports_iff hsimple).mpr ⟨c, hc, rfl⟩
    exact ⟨c.path, (hmem c.path).mpr ⟨⟨hasked, himported⟩, hsimple⟩, hP⟩

/-- The simple names that the import lines of an artifact take. -/
structure ImportNames (a : Artifact) (uses : List ClassName) : Prop where
  /-- The source starts with its package line and its import lines. -/
  head : (header a.package a.imports).toList <+: a.text.toList
  /-- Every import is a line of the source. -/
  lines : ∀ path ∈ a.classImports, HasLine a.text (importLine path)
  /-- No two lines end in one simple name, exactly when no two classes clash. -/
  unique_iff : (∀ p ∈ a.classImports, ∀ q ∈ a.classImports, simpleName p = simpleName q → p = q) ↔
    ∀ c ∈ uses, ∀ d ∈ uses, ¬ c.Clash a.package d
  /-- No line ends in the name that the source declares, exactly when no imported class has it. -/
  own_iff : (∀ p ∈ a.classImports, simpleName p ≠ a.name) ↔
    ∀ c ∈ uses, c.ImportedByName a.package → c.simple ≠ a.name
  /-- The simple name of a class is taken by another, exactly when one is imported that has it. -/
  taken_iff : ∀ c : ClassName, (∃ p ∈ a.classImports, p ≠ c.path ∧ simpleName p = c.simple) ↔
    ∃ d ∈ uses, d.ImportedByName a.package ∧ d.path ≠ c.path ∧ d.simple = c.simple

theorem SourceUses.importNames (h : SourceUses options files a uses) : ImportNames a uses where
  head := a.head_prefix_text
  lines := by
    intro path hpath
    exact Artifact.hasLine_text (List.mem_filter.mp hpath).1
  unique_iff := by
    -- Both sides say that there is no pair of lines, or of classes, that clash.
    have hpair : (∃ p ∈ a.classImports, ∃ q ∈ a.classImports, p ≠ q ∧ simpleName p = simpleName q) ↔
        ∃ c ∈ uses, ∃ d ∈ uses, c.Clash a.package d := by
      rw [h.exists_classImports_iff]
      simp only [h.exists_classImports_iff]
      constructor
      · rintro ⟨c, hc, hcName, d, hd, hdName, hne, hsimple⟩
        exact ⟨c, hc, d, hd, hcName, hdName, hne, hsimple⟩
      · rintro ⟨c, hc, d, hd, hcName, hdName, hne, hsimple⟩
        exact ⟨c, hc, hcName, d, hd, hdName, hne, hsimple⟩
    constructor
    · intro hunique c hc d hd hclash
      obtain ⟨p, hp, q, hq, hne, hsimple⟩ := hpair.mpr ⟨c, hc, d, hd, hclash⟩
      exact hne (hunique p hp q hq hsimple)
    · intro hnone p hp q hq hsimple
      by_contra hne
      obtain ⟨c, hc, d, hd, hclash⟩ := hpair.mp ⟨p, hp, q, hq, hne, hsimple⟩
      exact hnone c hc d hd hclash
  own_iff := by
    have hown := h.exists_classImports_iff (simpleName · = a.name)
    constructor
    · intro hnone c hc hcName hsimple
      obtain ⟨p, hp, hp'⟩ := hown.mpr ⟨c, hc, hcName, hsimple⟩
      exact hnone p hp hp'
    · intro hnone p hp hsimple
      obtain ⟨c, hc, hcName, hc'⟩ := hown.mp ⟨p, hp, hsimple⟩
      exact hnone c hc hcName hc'
  taken_iff := fun c =>
    h.exists_classImports_iff fun path => path ≠ c.path ∧ simpleName path = c.simple

theorem exists_sourceUses {file : File} (hfile : file ∈ files) {gs : List Generated}
    (h : artifactsOf options file = .ok gs) {g : Generated} (hg : g ∈ gs) :
    ∃ uses, SourceUses options files g.artifact uses := by
  obtain ⟨services, hservices, rfl⟩ := artifactsOf_eq_ok_iff.mp h
  rcases List.mem_append.mp hg with hg | hg
  · rcases List.mem_append.mp hg with hg | hg
    · obtain ⟨m, hm, rfl⟩ := List.mem_map.mp hg
      exact ⟨_, SourceUses.bean hfile hm⟩
    · obtain ⟨e, he, rfl⟩ := List.mem_map.mp hg
      exact ⟨_, SourceUses.enumClass hfile he⟩
  · obtain ⟨two, htwo, hmem⟩ := List.mem_flatten.mp hg
    obtain ⟨s, hs, interface, controller, hi, hc, rfl⟩ :=
      exists_left_of_forall₂ hservices two htwo
    rcases List.mem_cons.mp hmem with rfl | hmem
    · exact ⟨_, SourceUses.serviceInterface hfile hs hi⟩
    · obtain rfl := List.mem_singleton.mp hmem
      exact ⟨_, SourceUses.controller hfile hs hc⟩

end Target

open Target
open Text (HasLine)

/-! ### The import lines of a run -/

theorem hasLine_contentOf {request : Descriptor.Request} {a : Artifact} {line : String}
    (h : HasLine a.text line) : HasLine (contentOf request a) line := by
  refine h.append_left (Or.inr ?_)
  rw [String.toList_append, List.getLast?_append]
  rfl

/-- **Imports take the names of the imported classes.** Every output file of a run holds the source
of an artifact, in which a simple name is taken twice, or is taken from the class that the source
declares, exactly when classes that it imports from elsewhere have that name. -/
theorem importNames_of_generate {request : Descriptor.Request} {annotations : Annotated.Request}
    {outputs : List OutputFile} (h : (generate request annotations).result = .ok outputs) :
    ∃ options files, Options.parse request.parameter = .ok options ∧
      (contractFiles options request annotations).result = .ok files ∧
      ∀ o ∈ outputs, ∃ a uses, o = ⟨a.path, contentOf request a⟩ ∧
        SourceUses options files a uses ∧ ImportNames a uses := by
  obtain ⟨options, files, gss, ho, hf, hgss, rfl, -⟩ := generate_eq_ok_iff.mp h
  refine ⟨options, files, ho, hf, fun o hmem => ?_⟩
  obtain ⟨g, hg, rfl⟩ := List.mem_map.mp hmem
  obtain ⟨gs, hgs, hgmem⟩ := List.mem_flatten.mp hg
  obtain ⟨file, hfile, hok⟩ := exists_left_of_forall₂ hgss gs hgs
  obtain ⟨uses, huses⟩ := exists_sourceUses hfile hok hgmem
  exact ⟨g.artifact, uses, rfl, huses, huses.importNames⟩

/-- Two packages that declare an item, and a third that does so as well and refers to both. -/
def itemsRequest : Descriptor.Request where
  listed := ["cart.proto"]
  files := [
    { name? := some "toys.proto", package := "toys", messages := [{ name := "Item" }] },
    { name? := some "food.proto", package := "food", messages := [{ name := "Item" }] },
    { name? := some "cart.proto"
      package := "cart"
      messages := [
        { name := "Cart"
          fields := [
            { name := "toy", number := 1, type := some 11, typeName := ".toys.Item" },
            { name := "meal", number := 2, type := some 11, typeName := ".food.Item" }] },
        { name := "Item"
          fields := [
            { name := "toy", number := 1, type := some 11, typeName := ".toys.Item" }] }] }]

theorem importNames_itemsRequest : ∃ outputs options files,
    (generate itemsRequest {}).result = .ok outputs ∧
    Options.parse itemsRequest.parameter = .ok options ∧
    (contractFiles options itemsRequest {}).result = .ok files ∧
    ∀ o ∈ outputs, ∃ a uses, o = ⟨a.path, contentOf itemsRequest a⟩ ∧
      SourceUses options files a uses ∧ ImportNames a uses := by
  obtain ⟨outputs, h⟩ : ∃ outputs, (generate itemsRequest {}).result = .ok outputs :=
    exists_ok_of_isOk (by decide +kernel)
  obtain ⟨options, files, ho, hf, hnames⟩ := importNames_of_generate h
  exact ⟨outputs, options, files, h, ho, hf, hnames⟩

/-- The beans of `Cart` and of `Item` import the items of the other packages by their simple
name. -/
theorem not_forall_imports_unambiguous :
    (¬ ∀ (request : Descriptor.Request) (annotations : Annotated.Request)
        (outputs : List OutputFile), (generate request annotations).result = .ok outputs →
      ∀ o ∈ outputs, ∀ p q, HasLine o.content (importLine p) → HasLine o.content (importLine q) →
        simpleName p ≠ everyClass → simpleName p = simpleName q → p = q) ∧
    ¬ ∀ (request : Descriptor.Request) (annotations : Annotated.Request) (options : Options)
        (files : List File) (outputs : List OutputFile),
      (generate request annotations).result = .ok outputs →
      Options.parse request.parameter = .ok options →
      (contractFiles options request annotations).result = .ok files →
      ∀ file ∈ files, ∀ m ∈ file.messages,
        ∀ o ∈ outputs, o.name = sourcePath m.package m.name →
          ∀ p, HasLine o.content (importLine p) → simpleName p ≠ m.name := by
  obtain ⟨outputs, h⟩ : ∃ outputs, (generate itemsRequest {}).result = .ok outputs :=
    exists_ok_of_isOk (by decide +kernel)
  obtain ⟨options, files, ho, hf, hp⟩ := artifactsPublished_of_generate h
  obtain rfl : {} = options := Except.ok.inj ho
  have hbeans : (match (contractFiles {} itemsRequest {}).result with
      | .ok files =>
        (files.any fun file => file.messages.any fun m =>
          (Artifact.bean (.ofMessage m)).importedPaths.contains "toys.dto.Item" &&
          (Artifact.bean (.ofMessage m)).importedPaths.contains "food.dto.Item") &&
        files.any fun file => file.messages.any fun m =>
          (Artifact.bean (.ofMessage m)).importedPaths.contains "toys.dto.Item" && m.name = "Item"
      | .error _ => false) = true := by
    decide +kernel
  rw [hf] at hbeans
  simp only [Bool.and_eq_true, List.any_eq_true, List.contains_iff_mem, decide_eq_true_eq]
    at hbeans
  obtain ⟨⟨file, hfile, m, hm, htoys, hfood⟩, file', hfile', m', hm', htoys', hname⟩ := hbeans
  have hsimple : simpleName "toys.dto.Item" = "Item" := by decide +kernel
  constructor
  · intro hall
    have heq := hall itemsRequest {} outputs h _ (bean_mem_outputs hp hfile hm) _ _
      (hasLine_contentOf (Artifact.hasLine_text htoys))
      (hasLine_contentOf (Artifact.hasLine_text hfood)) (by decide +kernel) (by decide +kernel)
    exact absurd heq (by decide)
  · intro hall
    have hne := hall itemsRequest {} {} files outputs h ho hf file' hfile' m' hm' _
      (bean_mem_outputs hp hfile' hm') rfl _ (hasLine_contentOf (Artifact.hasLine_text htoys'))
    exact hne (hsimple.trans hname.symm)

end RestScaffold
