import Mathlib.Data.List.Flatten
import RestScaffold.Proofs.Generation
import RestScaffold.Proofs.Parameters
import RestScaffold.Proofs.Resolved

/-! # Separate runs

Where no file asks for a package and the parameter gives none, being listed says only that a file
gets sources. The outputs of a listed file are then the same whichever other files are listed.

* `GivesNoPackage`, `basePackage_of_parse`: a parameter that gives no package;
* `Request.listing`, `sourceFiles_listing`: the same request with other names listed has the same
  files but for the mark that they are listed;
* `registryOf_listing`, `contractFiles_listing`: references find the same declarations, and the
  contract of fewer files is part of the contract of all;
* `OutputsByFile`: the outputs of a run, file by file;
* `separateRuns_of_generate`: a part of the listed files, or one of them, has the outputs that it
  has among the others. -/

namespace RestScaffold

/-! ### Parameters without a package -/

/-- No part of the parameter gives a package in place of that of the files. -/
def GivesNoPackage (parameter : Option String) : Prop :=
  ∀ part ∈ Options.parts (parameter.getD ""), ∀ name, Setting.parse part ≠ .ok (.basePackage name)

theorem basePackage_of_parse {parameter : Option String} {options : Options}
    (hp : GivesNoPackage parameter) (ho : Options.parse parameter = .ok options) :
    options.basePackage = none := by
  obtain ⟨settings, hsettings, rfl⟩ := Options.parse_eq_ok_iff.mp ho
  have hkeys : ∀ setting ∈ settings, setting.key ≠ .basePackage := by
    intro setting hmem hkey
    obtain ⟨part, hpart, hok⟩ := exists_left_of_forall₂ (mapM_eq_ok_iff.mp hsettings) setting hmem
    cases setting with
    | basePackage name => exact hp part hpart name hok
    | _ => exact Key.noConfusion hkey
  simpa [Options.setting?] using Options.setting?_foldl_of_forall_ne hkeys {}

/-! ### The same request with other files listed -/

/-- The same request with the given names listed. -/
def Descriptor.Request.listing (r : Descriptor.Request) (names : List String) :
    Descriptor.Request :=
  { r with listed := names }

namespace Contract

/-- The same file, listed or not. -/
def SourceFile.relist (isListed : Bool) (s : SourceFile) : SourceFile :=
  { s with isListed := isListed }

section

variable {options : Options} {r : Descriptor.Request} {annotations : Annotated.Request}
  {names : List String}

/-- A file that asks for no package has one package, listed or not. -/
theorem ofDescriptor_listing (hb : options.basePackage = none) {d : Descriptor.File}
    (hj : d.javaPackage = none) :
    SourceFile.ofDescriptor options (r.listing names) annotations d =
      (SourceFile.ofDescriptor options r annotations d).relist (names.contains d.name) := by
  have hbase : ∀ isListed, basePackage options isListed d = d.package := by
    intro isListed
    cases isListed <;> simp [basePackage, hj, hb]
  have hbean : ∀ isListed, beanPackage options isListed d =
      Naming.qualify d.package options.beanPackage := by
    intro isListed
    unfold beanPackage
    rw [hj, hbase]
  simp only [SourceFile.ofDescriptor, SourceFile.relist, Descriptor.Request.listing, hbase, hbean]

theorem sourceFiles_listing (hb : options.basePackage = none)
    (hj : ∀ d ∈ r.files, d.javaPackage = none) :
    sourceFiles options (r.listing names) annotations =
      (sourceFiles options r annotations).map fun s =>
        s.relist (names.contains s.descriptor.name) := by
  rw [sourceFiles, sourceFiles, List.map_map]
  apply List.map_congr_left
  intro d hd
  exact ofDescriptor_listing hb (hj d hd)

theorem registryOf_listing (hb : options.basePackage = none)
    (hj : ∀ d ∈ r.files, d.javaPackage = none) :
    registryOf options (r.listing names) annotations = registryOf options r annotations := by
  unfold registryOf Registry.ofFiles
  rw [sourceFiles_listing hb hj, List.flatMap_map]
  rfl

theorem contractMessages_relist (registry : Registry) (isListed : Bool) (s : SourceFile) :
    (s.relist isListed).contractMessages registry = s.contractMessages registry :=
  rfl

theorem contractFile_relist (all : List Message) (isListed : Bool) (s : SourceFile)
    (messages : List Message) :
    contractFile all (s.relist isListed) messages = contractFile all s messages :=
  rfl

theorem isListed_of_mem_sourceFiles {s : SourceFile}
    (hs : s ∈ sourceFiles options r annotations) :
    s.isListed = r.listed.contains s.descriptor.name := by
  obtain ⟨d, -, rfl⟩ := List.mem_map.mp hs
  rfl

/-- The contract of fewer files is part of the contract of all that were listed. -/
theorem contractFiles_listing (hb : options.basePackage = none)
    (hj : ∀ d ∈ r.files, d.javaPackage = none) (hn : ∀ name ∈ names, name ∈ r.listed)
    {files : List File} (hf : (contractFiles options r annotations).result = .ok files) :
    (contractFiles options (r.listing names) annotations).result =
      .ok (files.filter fun file => names.contains file.name) := by
  obtain ⟨resolved, hresolved, hfiles⟩ := contractFiles_eq_ok_iff.mp hf
  let isNamed : SourceFile × List Message → Bool := fun p => names.contains p.1.descriptor.name
  -- The same messages, each file with its new mark.
  let mark : SourceFile × List Message → SourceFile × List Message := fun p =>
    (p.1.relist (isNamed p), p.2)
  have hmarked : ∀ p ∈ resolved, (isNamed p && p.1.isListed) = isNamed p := by
    intro p hp
    obtain ⟨s, hs, rfl, -⟩ := exists_left_of_forall₂ hresolved p hp
    rw [isListed_of_mem_sourceFiles hs, Bool.and_eq_left_iff_imp]
    intro hname
    exact List.contains_iff_mem.mpr (hn _ (List.contains_iff_mem.mp hname))
  have hlisted : (resolved.map mark).filter (·.1.isListed) =
      ((resolved.filter (·.1.isListed)).filter isNamed).map mark := by
    rw [List.filter_map, List.filter_filter, List.filter_congr hmarked]
    rfl
  have hpart : List.Forall₂
      (fun p file => contractFile (resolved.flatMap (·.2)) p.1 p.2 = .ok file)
      ((resolved.filter (·.1.isListed)).filter isNamed)
      (files.filter fun file => names.contains file.name) := by
    refine List.rel_filter (fun p file hp => ?_) hfiles
    obtain ⟨services, -, rfl⟩ := contractFile_eq_ok_iff.mp hp
    exact Iff.rfl
  refine contractFiles_eq_ok_iff.mpr ⟨resolved.map mark, ?_, ?_⟩
  · rw [sourceFiles_listing hb hj, registryOf_listing hb hj, List.forall₂_map_left_iff,
      List.forall₂_map_right_iff]
    refine hresolved.imp fun s p hp => ?_
    obtain ⟨rfl, hms⟩ := hp
    refine ⟨rfl, ?_⟩
    rw [contractMessages_relist]
    exact hms
  · rw [hlisted, List.flatMap_map, List.forall₂_map_left_iff]
    refine hpart.imp fun p file hp => ?_
    rw [contractFile_relist]
    exact hp

end

end Contract

/-! ### Outputs by file -/

open Contract (File contractFiles)
open Target (artifactsOf)

variable {r : Descriptor.Request} {annotations : Annotated.Request}

/-- What the generator makes of one file of a contract. -/
def MadeFrom (options : Options) (head : String) (file : File) (outputs : List OutputFile) :
    Prop :=
  ∃ gs, artifactsOf options file = .ok gs ∧ gs.map (fun g => (published head g).output) = outputs

/-- The outputs of a run, file by file: with each file of the contract those that are made of it. -/
structure OutputsByFile (options : Options) (r : Descriptor.Request)
    (annotations : Annotated.Request) (parts : List (File × List OutputFile)) : Prop where
  parsed : Options.parse r.parameter = .ok options
  contract : (contractFiles options r annotations).result = .ok (parts.map (·.1))
  made : ∀ p ∈ parts, MadeFrom options (banner r.compiler) p.1 p.2
  outputs : (generate r annotations).result = .ok (parts.flatMap (·.2))

/-- A run goes through when what its files are made into has no path twice. -/
theorem outputsByFile_of_nodup {options : Options} {parts : List (File × List OutputFile)}
    (ho : Options.parse r.parameter = .ok options)
    (hf : (contractFiles options r annotations).result = .ok (parts.map (·.1)))
    (hm : ∀ p ∈ parts, MadeFrom options (banner r.compiler) p.1 p.2)
    (hn : ((parts.flatMap (·.2)).map (·.name)).Nodup) :
    OutputsByFile options r annotations parts := by
  obtain ⟨gss, hgss⟩ := exists_forall₂ hm
  have hmade : List.Forall₂ (fun file gs => artifactsOf options file = .ok gs)
      (parts.map (·.1)) gss := by
    rw [List.forall₂_map_left_iff]
    exact hgss.imp fun _ _ h => h.1
  have houtputs : gss.flatten.map (fun g => (published (banner r.compiler) g).output) =
      parts.flatMap (·.2) := by
    rw [List.map_flatten, List.flatMap_def]
    exact congrArg List.flatten (map_eq_map_of_forall₂ (hgss.imp fun _ _ h => h.2.symm)).symm
  exact ⟨ho, hf, hm, generate_eq_ok_iff.mpr ⟨options, _, gss, ho, hf, hmade, houtputs, hn⟩⟩

theorem exists_outputsByFile {outputs : List OutputFile}
    (hg : (generate r annotations).result = .ok outputs) :
    ∃ options parts, OutputsByFile options r annotations parts ∧ parts.flatMap (·.2) = outputs ∧
      (outputs.map (·.name)).Nodup := by
  obtain ⟨options, files, gss, ho, hf, hgss, rfl, hn⟩ := generate_eq_ok_iff.mp hg
  let made : List (List OutputFile) :=
    gss.map fun gs => gs.map fun g => (published (banner r.compiler) g).output
  have hmade : List.Forall₂ (MadeFrom options (banner r.compiler)) files made := by
    rw [List.forall₂_map_right_iff]
    exact hgss.imp fun _ gs h => ⟨gs, h, rfl⟩
  obtain ⟨hlength, hpairs⟩ := List.forall₂_iff_zip.mp hmade
  have hfst : (files.zip made).map (·.1) = files := List.map_fst_zip (Nat.le_of_eq hlength)
  have hsnd : (files.zip made).map (·.2) = made := List.map_snd_zip (Nat.le_of_eq hlength.symm)
  have houtputs : (files.zip made).flatMap (·.2) =
      gss.flatten.map fun g => (published (banner r.compiler) g).output := by
    rw [List.flatMap_def, hsnd, List.map_flatten]
  refine ⟨options, files.zip made, ⟨ho, ?_, fun p hp => hpairs hp, ?_⟩, houtputs, hn⟩
  · rw [hfst]
    exact hf
  · rw [houtputs]
    exact hg

theorem map_name_of_contractFiles {options : Options} {files : List File}
    (hf : (contractFiles options r annotations).result = .ok files) :
    (r.files.filter fun d => r.listed.contains d.name).map (·.name) = files.map (·.name) := by
  obtain ⟨all, -, hfiles⟩ := Contract.forall₂_of_contractFiles hf
  refine map_eq_map_of_forall₂ (hfiles.imp fun d file h => ?_)
  obtain ⟨messages, -, hok⟩ := h
  obtain ⟨services, -, rfl⟩ := Contract.contractFile_eq_ok_iff.mp hok
  rfl

theorem OutputsByFile.exists_part {options : Options} {parts : List (File × List OutputFile)}
    (h : OutputsByFile options r annotations parts) {name : String} (hl : name ∈ r.listed)
    (hone : r.files.countP (·.name = name) = 1) :
    ∃ p, parts.filter (·.1.name = name) = [p] := by
  rw [← List.length_eq_one_iff, ← List.countP_eq_length_filter]
  have hlisted : ∀ d ∈ r.files, (decide (d.name = name) && r.listed.contains d.name) =
      decide (d.name = name) := by
    intro d _
    rw [Bool.and_eq_left_iff_imp, decide_eq_true_eq]
    rintro rfl
    exact List.contains_iff_mem.mpr hl
  calc parts.countP (·.1.name = name)
      = ((parts.map (·.1)).map (·.name)).countP (· = name) := by
        rw [List.map_map, List.countP_map]
        rfl
    _ = (r.files.filter fun d => r.listed.contains d.name).countP (·.name = name) := by
        rw [← map_name_of_contractFiles h.contract, List.countP_map]
        rfl
    _ = r.files.countP (·.name = name) := by
        rw [List.countP_filter]
        exact List.countP_congr fun d hd => by rw [hlisted d hd]
    _ = 1 := hone

/-! ### Separate runs -/

/-- Every part of the listed files has, in a run of its own, the outputs that it has in the run of
all of them. -/
structure SeparateRuns (options : Options) (r : Descriptor.Request)
    (annotations : Annotated.Request) (parts : List (File × List OutputFile)) : Prop where
  joint : OutputsByFile options r annotations parts
  part : ∀ names, (∀ name ∈ names, name ∈ r.listed) →
    OutputsByFile options (r.listing names) annotations
      (parts.filter fun p => names.contains p.1.name)
  /-- In particular one file that is the only one of its name. -/
  alone : ∀ name ∈ r.listed, r.files.countP (·.name = name) = 1 → ∃ p,
    parts.filter (·.1.name = name) = [p] ∧
      (generate (r.listing [name]) annotations).result = .ok p.2

/-- Fewer files are made into what they are among all that were listed. -/
theorem OutputsByFile.listing {options : Options} {parts : List (File × List OutputFile)}
    (h : OutputsByFile options r annotations parts)
    (hdistinct : ((parts.flatMap (·.2)).map (·.name)).Nodup) (hb : options.basePackage = none)
    (hj : ∀ d ∈ r.files, d.javaPackage = none) {names : List String}
    (hn : ∀ name ∈ names, name ∈ r.listed) :
    OutputsByFile options (r.listing names) annotations
      (parts.filter fun p => names.contains p.1.name) := by
  have hsub := (List.filter_sublist (p := fun p : File × List OutputFile =>
    names.contains p.1.name) (l := parts)).flatMap (·.2)
  have ho : Options.parse (r.listing names).parameter = .ok options := h.parsed
  apply outputsByFile_of_nodup ho
  · rw [Contract.contractFiles_listing hb hj hn h.contract, List.filter_map]
    rfl
  · exact fun p hp => h.made p (List.mem_filter.mp hp).1
  · exact hdistinct.sublist (hsub.map _)

/-- **Separate runs agree with the joint run.** Where no file asks for a package and the parameter
gives none, a run that goes through also goes through with fewer files listed, and makes of these
what it made of them. -/
theorem separateRuns_of_generate (hj : ∀ d ∈ r.files, d.javaPackage = none)
    (hp : GivesNoPackage r.parameter) {outputs : List OutputFile}
    (hg : (generate r annotations).result = .ok outputs) :
    ∃ options parts, SeparateRuns options r annotations parts ∧ parts.flatMap (·.2) = outputs := by
  obtain ⟨options, parts, hjoint, rfl, hdistinct⟩ := exists_outputsByFile hg
  have hb : options.basePackage = none := basePackage_of_parse hp hjoint.parsed
  refine ⟨options, parts, ⟨hjoint, fun names hn => hjoint.listing hdistinct hb hj hn, ?_⟩, rfl⟩
  intro name hl hone
  obtain ⟨p, hpart⟩ := hjoint.exists_part hl hone
  have hsingle : OutputsByFile options (r.listing [name]) annotations
      (parts.filter fun p => [name].contains p.1.name) :=
    hjoint.listing hdistinct hb hj (by simpa using hl)
  have hfilter : (parts.filter fun p => [name].contains p.1.name) = [p] := by
    rw [← hpart]
    apply List.filter_congr
    intro q _
    simp
  refine ⟨p, hpart, ?_⟩
  rw [hsingle.outputs, hfilter, List.flatMap_singleton]

/-- Two listed files whose messages refer to each other and to a file that is not listed. Methods of
the first take and give messages of the other two. -/
def orchardRequest : Descriptor.Request where
  listed := ["trees.proto", "fruit.proto"]
  parameter := some "dto_package=model, verbose"
  files := [{
      name? := some "trees.proto"
      package := "orchard.trees"
      messages := [{
        name := "Tree"
        fields :=
          [{ name := "fruit", label := 3, type := some 11, typeName := ".orchard.fruit.Fruit" },
           { name := "soil", type := some 14, typeName := ".ground.Soil.Kind" }] }]
      services := [⟨"Trees", [⟨"Plant", ".ground.Soil", ".orchard.fruit.Fruit"⟩]⟩] },
    { name? := some "ground.proto"
      package := "ground"
      messages := [{ name := "Soil", enumerations := [⟨"Kind", ["CLAY", "SAND"]⟩] }] },
    { name? := some "fruit.proto"
      package := "orchard.fruit"
      messages := [{
        name := "Fruit"
        fields := [{ name := "tree", type := some 11, typeName := ".orchard.trees.Tree" }] }] }]

/-- The first file has three outputs of the four, with both listed and alone. -/
theorem separateRuns_orchardRequest : ∃ outputs options parts,
    (∀ d ∈ orchardRequest.files, d.javaPackage = none) ∧
    GivesNoPackage orchardRequest.parameter ∧
    (generate orchardRequest {}).result = .ok outputs ∧ outputs.length = 4 ∧
    SeparateRuns options orchardRequest {} parts ∧ parts.flatMap (·.2) = outputs ∧
    ∃ p, parts.filter (·.1.name = "trees.proto") = [p] ∧ p.2.length = 3 ∧
      (generate (orchardRequest.listing ["trees.proto"]) {}).result = .ok p.2 := by
  have hj : ∀ d ∈ orchardRequest.files, d.javaPackage = none := by decide +kernel
  have hp : GivesNoPackage orchardRequest.parameter := by
    have hparts : Options.parts (orchardRequest.parameter.getD "") =
        ["dto_package=model", "verbose"] := by decide +kernel
    have hbean : Setting.parse "dto_package=model" = .ok (.beanPackage "model") := by
      decide +kernel
    have hverbose : Setting.parse "verbose" = .ok (.verbose true) := by decide +kernel
    intro part hpart name
    rw [hparts] at hpart
    rcases List.mem_pair.mp hpart with rfl | rfl
    · simp [hbean]
    · simp [hverbose]
  have hcount : (generate orchardRequest {}).result.toOption.map List.length = some 4 := by
    decide +kernel
  have halone : (generate (orchardRequest.listing ["trees.proto"]) {}).result.toOption.map
      List.length = some 3 := by
    decide +kernel
  cases hg : (generate orchardRequest {}).result with
  | error fault => exact absurd hcount (by simp [hg, Except.toOption])
  | ok outputs =>
      obtain ⟨options, parts, hruns, hparts⟩ := separateRuns_of_generate hj hp hg
      obtain ⟨p, hpart, hsingle⟩ := hruns.alone "trees.proto" (by decide) (by decide +kernel)
      refine ⟨outputs, options, parts, hj, hp, rfl, ?_, hruns, hparts, p, hpart, ?_, hsingle⟩
      · simpa [hg, Except.toOption] using hcount
      · simpa [hsingle, Except.toOption] using halone

end RestScaffold
