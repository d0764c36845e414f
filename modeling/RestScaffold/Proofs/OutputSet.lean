import RestScaffold.Proofs.Generation

/-! # The output set of a run

Which files a run generates once its contract is resolved and every interface and controller could
be made: one for each artifact, unless two artifacts have one path.

* `ServiceArtifacts`, `FileArtifacts`: the artifacts of a service and of a file, in order;
* `claim`: adding an artifact, whatever is noticed; `foldlM_publishFile_eq_foldlM_claim`: a run
  adds the artifacts of all files in one row;
* `FirstClash`, `foldlM_claim_eq_error_iff`: the first artifact whose path is taken, and the one
  that has it;
* `outputSet_of_generate`: the files of a run, or its fault. -/

namespace RestScaffold

open Contract (File Service contractFiles)
open Target (Generated artifactsOf ServiceInterface Controller)

variable {options : Options} {head : String} {file : File}

/-! ### The artifacts of a run -/

/-- The artifacts of a service: its interface, then its controller. -/
def ServiceArtifacts (options : Options) (file : File) (s : Service) (gs : List Generated) : Prop :=
  ∃ interface controller, ServiceInterface.ofService options file s = .ok interface ∧
    Controller.ofService options file s = .ok controller ∧
    [⟨.serviceInterface interface, s.fullName⟩, ⟨.controller controller, s.fullName⟩] = gs

/-- The artifacts of a file: a bean for each message, a class for each enumeration, and the two of
each service. -/
def FileArtifacts (options : Options) (file : File) (gs : List Generated) : Prop :=
  ∃ services, List.Forall₂ (ServiceArtifacts options file) file.services services ∧
    file.messages.map (fun m => ⟨.bean (.ofMessage m), m.fullName⟩) ++
      file.enumerations.map (fun e => ⟨.enumClass (.ofEnumeration e), e.fullName⟩) ++
      services.flatten = gs

theorem artifactsOf_eq_ok_iff_fileArtifacts {gs : List Generated} :
    artifactsOf options file = .ok gs ↔ FileArtifacts options file gs :=
  artifactsOf_eq_ok_iff

theorem exists_fileArtifacts (hs : ∀ s ∈ file.services,
    (∃ interface, ServiceInterface.ofService options file s = .ok interface) ∧
      ∃ controller, Controller.ofService options file s = .ok controller) :
    ∃ gs, FileArtifacts options file gs := by
  have hall : ∀ s ∈ file.services, ∃ gs, ServiceArtifacts options file s gs := by
    intro s hmem
    obtain ⟨⟨interface, hi⟩, controller, hc⟩ := hs s hmem
    exact ⟨_, interface, controller, hi, hc, rfl⟩
  obtain ⟨services, hservices⟩ := exists_forall₂ hall
  exact ⟨_, services, hservices, rfl⟩

/-! ### Claims on paths -/

/-- The paths of artifacts. -/
def artifactPaths (gs : List Generated) : List String :=
  gs.map (·.artifact.path)

theorem takenPaths_map_published (head : String) (gs : List Generated) :
    takenPaths (gs.map (published head)) = artifactPaths gs := by
  rw [takenPaths, List.map_map]
  rfl

/-- What comes of adding an artifact to what is done. -/
def claim (head : String) (done : List Published) (g : Generated) :
    Except Fault (List Published) :=
  match done.find? (·.output.name = g.artifact.path) with
  | some first => .error (.outputClash g.artifact.path first.origin g.origin)
  | none => .ok (done ++ [published head g])

theorem result_publish (verbose : Bool) (file : File) (done : List Published) (g : Generated) :
    (publish head verbose file done g).result = claim head done g := by
  cases h : done.find? (·.output.name = g.artifact.path) with
  | some first => simp only [publish, claim, h, Run.result_ofExcept]
  | none =>
      simp only [publish, claim, h]
      cases verbose <;> rfl

/-- The artifacts of a file are added one after the other, whether this is reported or not. -/
theorem result_publishFile (done : List Published) (file : File) :
    (publishFile options head done file).result =
      artifactsOf options file >>= fun gs => gs.foldlM (claim head) done := by
  simp only [publishFile, Run.result_bind, Run.result_ofExcept, Run.result_foldlM, result_publish]

theorem foldlM_publishFile_eq_foldlM_claim {files : List File} {gss : List (List Generated)}
    (h : List.Forall₂ (FileArtifacts options) files gss) (done : List Published) :
    (files.foldlM (publishFile options head) done).result =
      gss.flatten.foldlM (claim head) done := by
  induction h generalizing done with
  | nil => rfl
  | @cons file gs files gss hgs _ ih =>
      have hfile : (publishFile options head done file).result = gs.foldlM (claim head) done := by
        rw [result_publishFile, artifactsOf_eq_ok_iff_fileArtifacts.mpr hgs]
        rfl
      rw [List.foldlM_cons, Run.result_bind, List.flatten_cons, List.foldlM_append, hfile]
      exact congrArg _ (funext ih)

theorem foldlM_claim_eq_ok_iff {done result : List Published} (hn : (takenPaths done).Nodup)
    {gs : List Generated} : gs.foldlM (claim head) done = .ok result ↔
      done ++ gs.map (published head) = result ∧ (takenPaths result).Nodup := by
  have h : (gs.foldlM (publish head false {}) done).result = .ok result ↔
      done ++ gs.map (published head) = result ∧ (takenPaths result).Nodup :=
    foldlM_publish_eq_ok_iff hn
  simpa only [Run.result_foldlM, result_publish] using h

/-! ### Clashes -/

/-- `second` is the first artifact whose path an earlier one has, and `first` is that one. -/
def FirstClash (gs : List Generated) (first second : Generated) : Prop :=
  ∃ before after, gs = before ++ second :: after ∧ (artifactPaths before).Nodup ∧
    first ∈ before ∧ first.artifact.path = second.artifact.path

/-- The fault that reports a clash. -/
def clashFault (first second : Generated) : Fault :=
  .outputClash second.artifact.path first.origin second.origin

theorem claim_eq_error_iff {before : List Generated} (hn : (artifactPaths before).Nodup)
    {g : Generated} {fault : Fault} :
    claim head (before.map (published head)) g = .error fault ↔
      ∃ first ∈ before, first.artifact.path = g.artifact.path ∧ fault = clashFault first g := by
  unfold claim
  rw [List.find?_map]
  cases h : before.find? ((fun p : Published => decide (p.output.name = g.artifact.path)) ∘
      published head) with
  | none =>
      have hfresh : ∀ first ∈ before, first.artifact.path ≠ g.artifact.path :=
        fun first hfirst hpath => List.find?_eq_none.mp h first hfirst (decide_eq_true hpath)
      simp only [Option.map_none, reduceCtorEq, false_iff]
      rintro ⟨first, hfirst, hpath, -⟩
      exact hfresh first hfirst hpath
  | some found =>
      have hmem := List.mem_of_find?_eq_some h
      have hpath : found.artifact.path = g.artifact.path := by
        have hfound := List.find?_some h
        exact of_decide_eq_true hfound
      simp only [Option.map_some, Except.error.injEq]
      constructor
      · rintro rfl
        exact ⟨found, hmem, hpath, rfl⟩
      · rintro ⟨first, hfirst, hfirstPath, rfl⟩
        obtain rfl := List.inj_on_of_nodup_map hn hmem hfirst (hpath.trans hfirstPath.symm)
        rfl

theorem FirstClash.not_nodup {gs : List Generated} {first second : Generated}
    (h : FirstClash gs first second) : ¬ (artifactPaths gs).Nodup := by
  have hrepeat : FirstRepeat (fun g : Generated => g.artifact.path) gs first second := h
  exact hrepeat.not_nodup

/-- Adding artifacts fails at the first clash, which the fault reports. -/
theorem foldlM_claim_eq_error_iff {gs : List Generated} {fault : Fault} :
    gs.foldlM (claim head) [] = .error fault ↔
      ∃ first second, FirstClash gs first second ∧ fault = clashFault first second := by
  have hnil : (takenPaths []).Nodup := List.nodup_nil
  rw [foldlM_eq_error_iff]
  simp only [foldlM_claim_eq_ok_iff hnil, List.nil_append]
  constructor
  · rintro ⟨before, second, after, _, rfl, ⟨rfl, hn⟩, h⟩
    rw [takenPaths_map_published] at hn
    obtain ⟨first, hfirst, hpath, rfl⟩ := (claim_eq_error_iff hn).mp h
    exact ⟨first, second, ⟨before, after, rfl, hn, hfirst, hpath⟩, rfl⟩
  · rintro ⟨first, second, ⟨before, after, rfl, hn, hfirst, hpath⟩, rfl⟩
    refine ⟨before, second, after, _, rfl, ⟨rfl, ?_⟩, ?_⟩
    · rwa [takenPaths_map_published]
    · exact (claim_eq_error_iff hn).mpr ⟨first, hfirst, hpath, rfl⟩

/-! ### The files of a run -/

/-- What a run comes to whose artifacts are `gs`: it fails exactly when two of them have one path,
and then with their first clash; else there is a file for each artifact, in order. -/
structure OutputSet (request : Descriptor.Request) (gs : List Generated)
    (result : Except Fault (List OutputFile)) : Prop where
  fails_iff : (∃ fault, result = .error fault) ↔ ¬ (artifactPaths gs).Nodup
  fault : ∀ fault, result = .error fault →
    ∃ first second, FirstClash gs first second ∧ fault = clashFault first second
  files : ∀ outputs, result = .ok outputs →
    outputs = gs.map (fun g => (published (banner request.compiler) g).output) ∧
      outputs.map (·.name) = artifactPaths gs ∧ (outputs.map (·.name)).Nodup

section

variable {request : Descriptor.Request} {annotations : Annotated.Request} {files : List File}

theorem generate_eq_foldlM_claim (ho : Options.parse request.parameter = .ok options)
    (hf : (contractFiles options request annotations).result = .ok files)
    {gss : List (List Generated)} (h : List.Forall₂ (FileArtifacts options) files gss) :
    (generate request annotations).result =
      (fun done => done.map (·.output)) <$>
        gss.flatten.foldlM (claim (banner request.compiler)) [] := by
  rw [generate, Run.result_bind, Run.result_ofExcept, ho]
  show (contractFiles options request annotations >>= _).result = _
  rw [Run.result_bind, hf]
  show (files.foldlM (publishFile options (banner request.compiler)) [] >>= _).result = _
  rw [Run.result_bind, foldlM_publishFile_eq_foldlM_claim h, map_eq_pure_bind]
  rfl

/-- **The output set of a run.** -/
theorem outputSet_of_generate (ho : Options.parse request.parameter = .ok options)
    (hf : (contractFiles options request annotations).result = .ok files)
    (hs : ∀ file ∈ files, ∀ s ∈ file.services,
      (∃ interface, ServiceInterface.ofService options file s = .ok interface) ∧
        ∃ controller, Controller.ofService options file s = .ok controller) :
    ∃ gss, List.Forall₂ (FileArtifacts options) files gss ∧
      OutputSet request gss.flatten (generate request annotations).result := by
  obtain ⟨gss, hgss⟩ := exists_forall₂ fun file hfile => exists_fileArtifacts (hs file hfile)
  refine ⟨gss, hgss, ?_⟩
  have hnil : (takenPaths []).Nodup := List.nodup_nil
  rw [generate_eq_foldlM_claim ho hf hgss]
  cases h : gss.flatten.foldlM (claim (banner request.compiler)) [] with
  | error fault =>
      obtain ⟨first, second, hclash, hfault⟩ := foldlM_claim_eq_error_iff.mp h
      refine ⟨iff_of_true ⟨fault, rfl⟩ hclash.not_nodup, ?_, ?_⟩
      · intro fault' h'
        obtain rfl : fault = fault' := Except.error.inj h'
        exact ⟨first, second, hclash, hfault⟩
      · intro outputs h'
        exact absurd h' (by simp [Functor.map, Except.map])
  | ok done =>
      obtain ⟨rfl, hn⟩ := (foldlM_claim_eq_ok_iff hnil).mp h
      rw [List.nil_append, takenPaths_map_published] at hn
      refine ⟨iff_of_false ?_ (not_not.mpr hn), ?_, ?_⟩
      · rintro ⟨fault, h'⟩
        exact absurd h' (by simp [Functor.map, Except.map])
      · intro fault h'
        exact absurd h' (by simp [Functor.map, Except.map])
      · intro outputs h'
        obtain rfl : ((gss.flatten.map (published (banner request.compiler))).map (·.output)) =
          outputs := Except.ok.inj h'
        rw [← takenPaths_map_published (banner request.compiler)] at hn ⊢
        refine ⟨List.map_map, List.map_map, ?_⟩
        rwa [List.map_map]

end

/-- A file in which an enumeration and a message, nested in different messages, have one name. -/
def clashRequest : Descriptor.Request where
  listed := ["clash.proto"]
  files := [{
    name? := some "clash.proto"
    package := "clash"
    messages := [
      { name := "User", enumerations := [{ name := "Status", values := ["ACTIVE"] }] },
      { name := "Order", nested := [{ name := "Status" }] }]
    services := [{
      name := "Orders"
      methods := [{ name := "Place", input := ".clash.Order", output := ".clash.User" }] }] }]

theorem outputSet_clashRequest : ∃ options files gss,
    Options.parse clashRequest.parameter = .ok options ∧
    (contractFiles options clashRequest {}).result = .ok files ∧
    List.Forall₂ (FileArtifacts options) files gss ∧
    OutputSet clashRequest gss.flatten (generate clashRequest {}).result ∧
    (generate clashRequest {}).result =
      .error (.outputClash "clash/dto/Status.java" "clash.Order.Status" "clash.User.Status") := by
  have ho : Options.parse clashRequest.parameter = .ok {} := rfl
  obtain ⟨files, hf⟩ : ∃ files, (contractFiles {} clashRequest {}).result = .ok files :=
    exists_ok_of_isOk (by decide +kernel)
  have hbuilt : (match (contractFiles {} clashRequest {}).result with
      | .ok files => files.all fun file => file.services.all fun s =>
          (ServiceInterface.ofService {} file s).isOk && (Controller.ofService {} file s).isOk
      | .error _ => false) = true := by
    decide +kernel
  rw [hf] at hbuilt
  simp only [List.all_eq_true, Bool.and_eq_true] at hbuilt
  obtain ⟨gss, hgss, hset⟩ := outputSet_of_generate ho hf fun file hfile s hs =>
    ⟨exists_ok_of_isOk (hbuilt file hfile s hs).1, exists_ok_of_isOk (hbuilt file hfile s hs).2⟩
  exact ⟨{}, files, gss, ho, hf, hgss, hset, by decide +kernel⟩

end RestScaffold
