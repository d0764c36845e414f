import Mathlib.Data.List.Flatten
import RestScaffold.Proofs.Generation
import RestScaffold.Proofs.Lookups

/-! # The order of files

Where no two declarations have one name, it does not matter in which order the files of a request
come, nor how often and in which order the listed ones are named.

* `Reordered`: two requests with the same files, of which the same are listed;
* `Registry.Agrees`, `contractMessages_congr`: messages depend on a registry by what it finds;
* `agrees_registryOf`, `messageOf_perm`: names find the same declarations and messages in any order;
* `exists_contractFiles_perm`, `exists_generate_perm`: contracts and outputs in another order;
* `sameOutputs_generate`: both runs fail, or both give the same files. -/

namespace RestScaffold

namespace Descriptor

/-- The same request but for the order of its files and for the order and number of the names that
are listed. -/
structure Reordered (r r' : Request) : Prop where
  files : List.Perm r.files r'.files
  listed : ∀ name, name ∈ r.listed ↔ name ∈ r'.listed
  parameter : r.parameter = r'.parameter
  compiler : r.compiler = r'.compiler

theorem Reordered.symm {r r' : Request} (h : Reordered r r') : Reordered r' r :=
  ⟨h.files.symm, fun name => (h.listed name).symm, h.parameter.symm, h.compiler.symm⟩

theorem Reordered.contains_listed {r r' : Request} (h : Reordered r r') (name : String) :
    r.listed.contains name = r'.listed.contains name := by
  rw [Bool.eq_iff_iff, List.contains_iff_mem, List.contains_iff_mem]
  exact h.listed name

theorem Reordered.nodup_typeNames {r r' : Request} (h : Reordered r r')
    (hn : r.typeNames.Nodup) : r'.typeNames.Nodup :=
  (h.files.flatMap_right _).nodup_iff.mp hn

theorem Request.nodup_beanNames {r : Request} (hn : r.typeNames.Nodup) : r.beanNames.Nodup := by
  refine hn.sublist (List.Sublist.flatMap_right r.files fun d _ => ?_)
  exact (List.filter_sublist.map _).trans (List.sublist_append_left _ _)

end Descriptor

namespace Contract

open Descriptor (Reordered)

/-! ### Registries that agree -/

/-- Every reference means the same declaration, or none, in both registries. -/
def Registry.Agrees (registry registry' : Registry) : Prop :=
  ∀ typeName, registry.resolve? typeName = registry'.resolve? typeName

section

variable {registry registry' : Registry}

theorem kindOf_congr (h : registry.Agrees registry') : kindOf registry = kindOf registry' := by
  funext referrer f
  unfold kindOf typeRefOf
  rw [h f.typeName]

theorem cardinalityOf_congr (h : registry.Agrees registry') :
    cardinalityOf registry = cardinalityOf registry' := by
  funext referrer f
  unfold cardinalityOf
  rw [h f.typeName, kindOf_congr h]

/-- The messages of a file depend on what the registry finds, and on nothing else of it. -/
theorem contractMessages_congr (h : registry.Agrees registry') (s : SourceFile) :
    s.contractMessages registry = s.contractMessages registry' := by
  have hfield : contractField registry = contractField registry' := by
    unfold contractField
    rw [kindOf_congr h, cardinalityOf_congr h]
  unfold SourceFile.contractMessages contractMessage
  rw [hfield]

end

/-! ### Requests in another order -/

section

variable {options : Options} {r r' : Descriptor.Request} {annotations : Annotated.Request}

theorem ofDescriptor_congr (h : Reordered r r') (d : Descriptor.File) :
    SourceFile.ofDescriptor options r annotations d =
      SourceFile.ofDescriptor options r' annotations d := by
  unfold SourceFile.ofDescriptor
  rw [h.contains_listed]

theorem sourceFiles_perm (h : Reordered r r') :
    List.Perm (sourceFiles options r annotations) (sourceFiles options r' annotations) := by
  have hsame : SourceFile.ofDescriptor options r annotations =
      SourceFile.ofDescriptor options r' annotations :=
    funext (ofDescriptor_congr h)
  rw [sourceFiles, sourceFiles, hsame]
  exact h.files.map _

theorem agrees_registryOf (hn : r.typeNames.Nodup) (h : Reordered r r') :
    (registryOf options r annotations).Agrees (registryOf options r' annotations) := by
  intro typeName
  have hp : List.Perm (registryOf options r annotations).declarations
      (registryOf options r' annotations).declarations :=
    (sourceFiles_perm h).flatMap_right _
  exact getLast?_filter_perm (nodup_registryOf hn) hp (referredName typeName)

theorem messageOf_perm {all all' : List Message} (hn : (all.map (·.fullName)).Nodup)
    (hp : List.Perm all all') : messageOf all = messageOf all' := by
  funext referrer typeName
  unfold messageOf
  rw [getLast?_filter_perm hn hp]

theorem contractFile_perm {all all' : List Message} (hn : (all.map (·.fullName)).Nodup)
    (hp : List.Perm all all') : contractFile all = contractFile all' := by
  have hmethod : contractMethod all = contractMethod all' := by
    unfold contractMethod
    rw [messageOf_perm hn hp]
  unfold contractFile SourceFile.contractServices contractService
  rw [hmethod]

theorem exists_contractFiles_perm (hn : r.typeNames.Nodup) (h : Reordered r r') {files : List File}
    (hf : (contractFiles options r annotations).result = .ok files) : ∃ files',
      (contractFiles options r' annotations).result = .ok files' ∧ List.Perm files files' := by
  obtain ⟨resolved, hresolved, hfiles⟩ := contractFiles_eq_ok_iff.mp hf
  obtain ⟨resolved', hresolved', hp⟩ :=
    List.perm_comp_forall₂ (sourceFiles_perm h).symm hresolved
  have hall : ((resolved.flatMap (·.2)).map (·.fullName)).Nodup := by
    rw [map_fullName_of_resolved hresolved]
    exact Descriptor.Request.nodup_beanNames hn
  -- The services of a file look up the messages of all files, which are now in another order.
  rw [contractFile_perm hall (hp.symm.flatMap_right _)] at hfiles
  obtain ⟨files', hfiles', hp'⟩ := List.perm_comp_forall₂ (hp.filter _) hfiles
  refine ⟨files', contractFiles_eq_ok_iff.mpr ⟨resolved', ?_, hfiles'⟩, hp'.symm⟩
  refine hresolved'.imp fun s p hp => ?_
  rwa [← contractMessages_congr (agrees_registryOf hn h)]

end

end Contract

/-! ### Runs in another order -/

open Contract
open Descriptor (Reordered)

/-- Two runs fail, or both give the same files, and so do the responses. -/
structure SameOutputs (run run' : Run (List OutputFile)) : Prop where
  succeeds_iff : (∃ outputs, run.result = .ok outputs) ↔ ∃ outputs, run'.result = .ok outputs
  perm : ∀ outputs outputs', run.result = .ok outputs → run'.result = .ok outputs' →
    List.Perm outputs outputs'
  response : List.Perm (respond run).files (respond run').files

/-- Of two runs that fail alike and give the same files, the responses have the same files. -/
theorem sameOutputs_of_perm {run run' : Run (List OutputFile)}
    (hiff : (∃ outputs, run.result = .ok outputs) ↔ ∃ outputs, run'.result = .ok outputs)
    (hperm : ∀ outputs outputs', run.result = .ok outputs → run'.result = .ok outputs' →
      List.Perm outputs outputs') : SameOutputs run run' := by
  refine ⟨hiff, hperm, ?_⟩
  unfold respond
  cases hx : run.result with
  | ok outputs =>
      obtain ⟨outputs', hy⟩ := hiff.mp ⟨outputs, hx⟩
      rw [hy]
      exact hperm outputs outputs' hx hy
  | error fault =>
      cases hy : run'.result with
      | ok outputs' =>
          obtain ⟨outputs, hok⟩ := hiff.mpr ⟨outputs', hy⟩
          exact absurd (hx.symm.trans hok) (by simp)
      | error fault' => exact List.Perm.refl []

variable {r r' : Descriptor.Request} {annotations : Annotated.Request}

/-- A run that went through goes through in another order, with the same files. -/
theorem exists_generate_perm (hn : r.typeNames.Nodup) (h : Reordered r r')
    {outputs : List OutputFile} (hg : (generate r annotations).result = .ok outputs) :
    ∃ outputs', (generate r' annotations).result = .ok outputs' ∧ List.Perm outputs outputs' := by
  obtain ⟨options, files, gss, ho, hf, hgss, rfl, hnames⟩ := generate_eq_ok_iff.mp hg
  obtain ⟨files', hf', hp⟩ := exists_contractFiles_perm hn h hf
  obtain ⟨gss', hgss', hp'⟩ := List.perm_comp_forall₂ hp.symm hgss
  have houtputs : List.Perm
      (gss.flatten.map fun g => (published (banner r.compiler) g).output)
      (gss'.flatten.map fun g => (published (banner r'.compiler) g).output) := by
    rw [h.compiler]
    exact hp'.symm.flatten.map _
  refine ⟨_, generate_eq_ok_iff.mpr ⟨options, files', gss', h.parameter ▸ ho, hf', hgss', rfl, ?_⟩,
    houtputs⟩
  exact (houtputs.map _).nodup_iff.mp hnames

/-- **The order of files does not matter.** Where no two declarations have one name, a request in
another order gives the same files, or fails as well. -/
theorem sameOutputs_generate (hn : r.typeNames.Nodup) (h : Reordered r r') :
    SameOutputs (generate r annotations) (generate r' annotations) := by
  apply sameOutputs_of_perm
  · constructor
    · rintro ⟨outputs, hg⟩
      obtain ⟨outputs', hg', -⟩ := exists_generate_perm hn h hg
      exact ⟨outputs', hg'⟩
    · rintro ⟨outputs', hg'⟩
      obtain ⟨outputs, hg, -⟩ := exists_generate_perm (h.nodup_typeNames hn) h.symm hg'
      exact ⟨outputs, hg⟩
  · intro outputs outputs' hg hg'
    obtain ⟨found, hfound, hp⟩ := exists_generate_perm hn h hg
    obtain rfl := Except.ok.inj (hfound.symm.trans hg')
    exact hp

/-- Three files that refer to each other. One of them is not listed. -/
def ferryRequest : Descriptor.Request where
  listed := ["ferry.proto", "ports.proto"]
  files := [{
      name? := some "ferry.proto"
      package := "ferry"
      messages := [{
        name := "Crossing"
        fields :=
          [{ name := "legs", label := 3, type := some 11, typeName := ".ferry.Crossing.LegsEntry" }]
        nested := [{
          name := "LegsEntry"
          isMapEntry := true
          fields :=
            [{ name := "key", number := 1, type := some 14, typeName := ".tides.Tide" },
             { name := "value", number := 2, type := some 11, typeName := ".ports.Port" }] }] }]
      services := [⟨"Ferry", [⟨"Sail", ".ports.Port", ".ferry.Crossing"⟩]⟩] },
    { name? := some "ports.proto"
      package := "ports"
      messages := [{
        name := "Port"
        fields := [{ name := "next", type := some 11, typeName := ".ferry.Crossing" }] }] },
    { name? := some "tides.proto", package := "tides", enumerations := [⟨"Tide", ["EBB"]⟩] }]

/-- The same files from the last to the first. -/
def ferryRequestReordered : Descriptor.Request :=
  { ferryRequest with
    listed := ["ports.proto", "ferry.proto", "ports.proto"]
    files := ferryRequest.files.reverse }

/-- The two listed files have four artifacts. -/
theorem sameOutputs_ferryRequest : ferryRequest.typeNames.Nodup ∧
    Reordered ferryRequest ferryRequestReordered ∧
    SameOutputs (generate ferryRequest {}) (generate ferryRequestReordered {}) ∧
    ∃ outputs, (generate ferryRequest {}).result = .ok outputs ∧ outputs.length = 4 := by
  have hn : ferryRequest.typeNames.Nodup := by decide +kernel
  have hreordered : Reordered ferryRequest ferryRequestReordered := by
    refine ⟨(List.reverse_perm ferryRequest.files).symm, fun name => ?_, rfl, rfl⟩
    simp only [ferryRequest, ferryRequestReordered, List.mem_cons, List.not_mem_nil]
    tauto
  have hcount : (generate ferryRequest {}).result.toOption.map List.length = some 4 := by
    decide +kernel
  refine ⟨hn, hreordered, sameOutputs_generate hn hreordered, ?_⟩
  cases h : (generate ferryRequest {}).result with
  | ok outputs => exact ⟨outputs, rfl, by simpa [h, Except.toOption] using hcount⟩
  | error fault => exact absurd hcount (by simp [h, Except.toOption])

end RestScaffold
