import RestScaffold.Generator
import RestScaffold.Proofs.Sequencing

/-! # Generated files

What a run that went through has generated.

* `published`: an artifact as an output file;
* `foldlM_publish_eq_ok_iff`, `foldlM_publishFile_eq_ok_iff`: artifacts are added in order, unless
  a path would be used twice;
* `generate_eq_ok_iff`: the files of a run are the artifacts of its contract files, in order. -/

namespace RestScaffold

open Contract (File contractFiles)
open Target (Generated artifactsOf)

variable {head : String} {done result : List Published} {file : File} {verbose : Bool}

/-! ### Artifacts -/

/-- An artifact among those that are done. -/
def published (head : String) (g : Generated) : Published :=
  ⟨⟨g.artifact.path, head ++ "\n\n" ++ g.artifact.text⟩, g.origin⟩

/-- The paths of what is done. -/
def takenPaths (done : List Published) : List String :=
  done.map (·.output.name)

theorem publish_eq_ok_iff {g : Generated} :
    (publish head verbose file done g).result = .ok result ↔
      g.artifact.path ∉ takenPaths done ∧ done ++ [published head g] = result := by
  cases h : done.find? (·.output.name = g.artifact.path) with
  | some first =>
      have hmem : g.artifact.path ∈ takenPaths done :=
        List.mem_map.mpr ⟨first, List.mem_of_find?_eq_some h, by simpa using List.find?_some h⟩
      simp [publish, h, hmem]
  | none =>
      have hfresh : g.artifact.path ∉ takenPaths done := by
        simpa [takenPaths] using h
      have hok : (publish head verbose file done g).result = .ok (done ++ [published head g]) := by
        simp only [publish, h]
        cases verbose <;> rfl
      rw [hok, Except.ok.injEq, and_iff_right hfresh]

theorem foldlM_publish_eq_ok_iff (hn : (takenPaths done).Nodup) {gs : List Generated} :
    (gs.foldlM (publish head verbose file) done).result = .ok result ↔
      done ++ gs.map (published head) = result ∧ (takenPaths result).Nodup := by
  induction gs generalizing done with
  | nil =>
      rw [List.foldlM_nil, Run.result_pure, Except.ok.injEq, List.map_nil, List.append_nil]
      exact ⟨fun h => ⟨h, h ▸ hn⟩, fun h => h.1⟩
  | cons g gs ih =>
      rw [List.foldlM_cons, Run.result_bind, bind_eq_ok_iff]
      constructor
      · rintro ⟨added, hadd, hrest⟩
        obtain ⟨hfresh, rfl⟩ := publish_eq_ok_iff.mp hadd
        have hn' : (takenPaths (done ++ [published head g])).Nodup := by
          rw [takenPaths, List.map_append]
          exact hn.append (List.nodup_singleton _) (List.disjoint_singleton.mpr hfresh)
        obtain ⟨rfl, hresult⟩ := (ih hn').mp hrest
        exact ⟨by simp, hresult⟩
      · rintro ⟨rfl, hresult⟩
        have hassoc : done ++ (g :: gs).map (published head) =
            (done ++ [published head g]) ++ gs.map (published head) := by simp
        have hn' : (takenPaths (done ++ [published head g])).Nodup := by
          rw [hassoc, takenPaths, List.map_append] at hresult
          exact hresult.of_append_left
        refine ⟨_, publish_eq_ok_iff.mpr ⟨?_, rfl⟩, (ih hn').mpr ⟨hassoc.symm, hresult⟩⟩
        rw [takenPaths, List.map_append] at hn'
        exact fun hmem => List.disjoint_of_nodup_append hn' hmem (List.mem_singleton_self _)

/-! ### Files -/

theorem publishFile_eq_ok_iff (hn : (takenPaths done).Nodup) {options : Options} :
    (publishFile options head done file).result = .ok result ↔ ∃ gs,
      artifactsOf options file = .ok gs ∧ done ++ gs.map (published head) = result ∧
        (takenPaths result).Nodup := by
  simp only [publishFile, Run.result_bind, Run.result_ofExcept, bind_eq_ok_iff,
    foldlM_publish_eq_ok_iff hn]

/-- The artifacts of all files are added in order, and no path is used twice. -/
theorem foldlM_publishFile_eq_ok_iff (hn : (takenPaths done).Nodup) {options : Options}
    {files : List File} :
    (files.foldlM (publishFile options head) done).result = .ok result ↔ ∃ gss,
      List.Forall₂ (fun file gs => artifactsOf options file = .ok gs) files gss ∧
        done ++ gss.flatten.map (published head) = result ∧ (takenPaths result).Nodup := by
  induction files generalizing done with
  | nil =>
      simp only [List.foldlM_nil, Run.result_pure, Except.ok.injEq, List.forall₂_nil_left_iff,
        exists_eq_left, List.flatten_nil, List.map_nil, List.append_nil]
      exact ⟨fun h => ⟨h, h ▸ hn⟩, fun h => h.1⟩
  | cons file files ih =>
      rw [List.foldlM_cons, Run.result_bind, bind_eq_ok_iff]
      constructor
      · rintro ⟨added, hadd, hrest⟩
        obtain ⟨gs, hgs, rfl, hn'⟩ := (publishFile_eq_ok_iff hn).mp hadd
        obtain ⟨gss, hgss, rfl, hresult⟩ := (ih hn').mp hrest
        exact ⟨gs :: gss, List.Forall₂.cons hgs hgss, by simp, hresult⟩
      · rintro ⟨all, hall, rfl, hresult⟩
        obtain ⟨gs, gss, hgs, hgss, rfl⟩ := List.forall₂_cons_left_iff.mp hall
        have hassoc : done ++ (gs :: gss).flatten.map (published head) =
            (done ++ gs.map (published head)) ++ gss.flatten.map (published head) := by simp
        have hn' : (takenPaths (done ++ gs.map (published head))).Nodup := by
          rw [hassoc, takenPaths, List.map_append] at hresult
          exact hresult.of_append_left
        exact ⟨_, (publishFile_eq_ok_iff hn).mpr ⟨gs, hgs, rfl, hn'⟩,
          (ih hn').mpr ⟨gss, hgss, hassoc.symm, hresult⟩⟩

/-- The artifacts of a file: a bean for each message, a class for each enumeration, and for each
service its interface and its controller. -/
theorem artifactsOf_eq_ok_iff {options : Options} {gs : List Generated} :
    artifactsOf options file = .ok gs ↔ ∃ services,
      List.Forall₂ (fun s gs => ∃ interface controller,
          Target.ServiceInterface.ofService options file s = .ok interface ∧
          Target.Controller.ofService options file s = .ok controller ∧
          [⟨.serviceInterface interface, s.fullName⟩, ⟨.controller controller, s.fullName⟩] = gs)
        file.services services ∧
      file.messages.map (fun m => ⟨.bean (.ofMessage m), m.fullName⟩) ++
        file.enumerations.map (fun e => ⟨.enumClass (.ofEnumeration e), e.fullName⟩) ++
        services.flatten = gs := by
  simp only [artifactsOf, Target.serviceArtifacts, bind_eq_ok_iff, pure_eq_ok_iff, mapM_eq_ok_iff,
    exists_and_left]

/-- A run went through: the parameter was understood, the contract could be resolved, every
artifact could be made, and no path is used twice. -/
theorem generate_eq_ok_iff {request : Descriptor.Request} {annotations : Annotated.Request}
    {outputs : List OutputFile} : (generate request annotations).result = .ok outputs ↔
      ∃ options files gss, Options.parse request.parameter = .ok options ∧
        (contractFiles options request annotations).result = .ok files ∧
        List.Forall₂ (fun file gs => artifactsOf options file = .ok gs) files gss ∧
        gss.flatten.map (fun g => (published (banner request.compiler) g).output) = outputs ∧
        (outputs.map (·.name)).Nodup := by
  have hnil : (takenPaths []).Nodup := List.nodup_nil
  simp only [generate, Run.result_bind, Run.result_ofExcept, Run.result_pure, bind_eq_ok_iff,
    foldlM_publishFile_eq_ok_iff hnil, List.nil_append, Except.ok.injEq]
  constructor
  · rintro ⟨options, ho, files, hf, done, ⟨gss, hgss, rfl, hn⟩, rfl⟩
    refine ⟨options, files, gss, ho, hf, hgss, by rw [List.map_map]; rfl, ?_⟩
    rwa [List.map_map]
  · rintro ⟨options, files, gss, ho, hf, hgss, rfl, hn⟩
    refine ⟨options, ho, files, hf, _, ⟨gss, hgss, rfl, ?_⟩, by rw [List.map_map]; rfl⟩
    rw [List.map_map] at hn
    rwa [takenPaths, List.map_map]

end RestScaffold
