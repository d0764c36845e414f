import RestScaffold.Proofs.ContractTexts
import RestScaffold.Proofs.OutputSet
import RestScaffold.Proofs.Responses

/-! # Diagnostics

A run that fails is reported by the message of its fault. The line breaks of the message can only be
those of texts that the request or its annotations give.

* `GeneratedFrom`, `generatedFrom_of_artifactsOf`: the paths and the origins of artifacts;
* `faultsFrom_generate`: the values that a fault of a run names;
* `diagnosed_of_generate`: what is reported of a run that fails;
* `not_forall_singleLine`: a message of two lines. -/

namespace RestScaffold

/-! ### Paths and origins -/

namespace Target

open Contract (File)

section

variable {p : Char → Prop}

theorem breaksFrom_sourcePath {package name : String} (hpackage : BreaksFrom p package)
    (hname : BreaksFrom p name) : BreaksFrom p (sourcePath package name) := by
  have hslash : BreaksFrom p "/" := SingleLine.breaksFrom (by decide +kernel) p
  have hend : BreaksFrom p ".java" := SingleLine.breaksFrom (by decide +kernel) p
  have hdirectory : BreaksFrom p (Naming.packagePath package) := by
    intro c hc hbreak
    rw [Naming.packagePath, String.toList_ofList] at hc
    obtain ⟨d, hd, rfl⟩ := List.mem_map.mp hc
    split at hbreak
    · exact absurd hbreak (by decide)
    · rename_i hdot
      rw [if_neg hdot]
      exact hpackage d hd hbreak
  unfold sourcePath
  split
  · exact breaksFrom_append.mpr ⟨hname, hend⟩
  · simp only [breaksFrom_append]
    exact ⟨⟨⟨hdirectory, hslash⟩, hname⟩, hend⟩

theorem breaksFrom_serviceName {s : Contract.Service} (h : BreaksFrom p s.name) :
    BreaksFrom p (serviceName s) := by
  have hend : BreaksFrom p "Service" := SingleLine.breaksFrom (by decide +kernel) p
  unfold serviceName
  split
  · exact h
  · exact breaksFrom_append.mpr ⟨h, hend⟩

theorem breaksFrom_controllerName {s : Contract.Service} (h : BreaksFrom p s.name) :
    BreaksFrom p (controllerName s) := by
  have hend : BreaksFrom p "Controller" := SingleLine.breaksFrom (by decide +kernel) p
  refine breaksFrom_append.mpr ⟨?_, hend⟩
  unfold withoutEnding
  split
  · refine h.of_subset ?_
    rw [Option.getD_some, String.toList_ofList]
    exact (List.take_sublist _ _).subset
  · exact h

/-- All line breaks in the path of an artifact and in its origin have the property. -/
def GeneratedFrom (p : Char → Prop) (g : Generated) : Prop :=
  BreaksFrom p g.artifact.path ∧ BreaksFrom p g.origin

theorem generatedFrom_of_artifactsOf {options : Options}
    (ho : ∀ name ∈ options.packages, BreaksFrom p name) {file : File} (h : FileFrom p file)
    {gs : List Generated} (hgs : artifactsOf options file = .ok gs) :
    ∀ g ∈ gs, GeneratedFrom p g := by
  obtain ⟨services, hservices, rfl⟩ := artifactsOf_eq_ok_iff_fileArtifacts.mp hgs
  intro g hg
  simp only [List.mem_append, List.mem_map, List.mem_flatten] at hg
  rcases hg with (⟨m, hm, rfl⟩ | ⟨e, he, rfl⟩) | ⟨pair, hpair, hg⟩
  · have hmessage := h.messages m hm
    exact ⟨breaksFrom_sourcePath hmessage.package hmessage.name, hmessage.fullName⟩
  · have henum := h.enumerations e he
    exact ⟨breaksFrom_sourcePath henum.package henum.name, henum.fullName⟩
  · obtain ⟨s, hs, interface, controller, hi, hc, rfl⟩ := exists_left_of_forall₂ hservices pair hpair
    obtain ⟨operations, -, rfl⟩ := ServiceInterface.ofService_eq_ok_iff.mp hi
    obtain ⟨endpoints, -, rfl⟩ := Controller.ofService_eq_ok_iff.mp hc
    have hservice := h.services s hs
    have hserviceClass : BreaksFrom p (sourcePath (servicePackage options file) (serviceName s)) :=
      breaksFrom_sourcePath (h.package.qualify (ho _ (by simp [Options.packages])))
        (breaksFrom_serviceName hservice.name)
    have hcontrollerClass :
        BreaksFrom p (sourcePath (controllerPackage options file) (controllerName s)) :=
      breaksFrom_sourcePath (h.package.qualify (ho _ (by simp [Options.packages])))
        (breaksFrom_controllerName hservice.name)
    simp only [List.mem_cons, List.not_mem_nil, or_false] at hg
    rcases hg with rfl | rfl
    · exact ⟨hserviceClass, hservice.fullName⟩
    · exact ⟨hcontrollerClass, hservice.fullName⟩

end

end Target

/-! ### Runs -/

section

open Contract (File contractFiles)
open Target (FileFrom GeneratedFrom faultsFrom_artifactsOf generatedFrom_of_artifactsOf)

variable {p : Char → Prop} {head : String} {options : Options} {request : Descriptor.Request}
  {annotations : Annotated.Request}

/-- All line breaks in the origins of what is done have the property. -/
def OriginsFrom (p : Char → Prop) (done : List Published) : Prop :=
  ∀ f ∈ done, BreaksFrom p f.origin

theorem faultsFrom_claim {done : List Published} (hd : OriginsFrom p done) {g : Target.Generated}
    (hg : GeneratedFrom p g) : FaultsFrom p (claim head done g) := by
  unfold claim
  split
  · rename_i first hfirst
    have horigin := hd first (List.mem_of_find?_eq_some hfirst)
    exact faultsFrom_error (by simp [Fault.values, hg.1, hg.2, horigin])
  · exact faultsFrom_ok _

theorem originsFrom_of_claim {done done' : List Published} (hd : OriginsFrom p done)
    {g : Target.Generated} (hg : GeneratedFrom p g) (h : claim head done g = .ok done') :
    OriginsFrom p done' := by
  unfold claim at h
  split at h
  · exact absurd h (by simp)
  · obtain rfl := Except.ok.inj h
    exact List.forall_mem_append.mpr ⟨hd, by simpa [published] using hg.2⟩

/-- All line breaks in the values of a fault are from the texts of the request. -/
theorem faultsFrom_generate (hr : TextsFrom p request.texts)
    (ha : TextsFrom p annotations.texts) : FaultsFrom p (generate request annotations).result := by
  rw [Descriptor.Request.texts, textsFrom_append, textsFrom_toList, textsFrom_flatMap] at hr
  have hfiles : ∀ d ∈ request.files, DescriptorFrom p d :=
    fun d hd => descriptorFrom_of_texts (hr.2 d hd)
  simp only [generate, Run.result_bind, Run.result_ofExcept, Run.result_foldlM,
    result_publishFile, Run.result_pure]
  refine (faultsFrom_parse hr.1).bind fun options ho => ?_
  refine (Contract.faultsFrom_contractFiles hfiles).bind fun files hf => ?_
  have hcontract := Contract.fileFrom_of_contractFiles ho hfiles ha hf
  have hpackages : ∀ name ∈ options.packages, BreaksFrom p name :=
    fun name => Contract.breaksFrom_of_mem_packages ho
  refine FaultsFrom.bind ?_ fun _ _ => faultsFrom_ok _
  -- The artifacts of a file are made between the claims of the files around it.
  refine FaultsFrom.foldlM (OriginsFrom p) (by simp [OriginsFrom]) ?_ ?_
  · intro done hdone file hfile
    refine (faultsFrom_artifactsOf (hcontract file hfile)).bind fun gs hgs => ?_
    have hg := generatedFrom_of_artifactsOf hpackages (hcontract file hfile) hgs
    exact FaultsFrom.foldlM (OriginsFrom p) hdone
      (fun _ hc g hmem => faultsFrom_claim hc (hg g hmem))
      (fun _ hc g hmem _ hok => originsFrom_of_claim hc (hg g hmem) hok)
  · intro done hdone file hfile done' hdone'
    obtain ⟨gs, hgs, hclaims⟩ := bind_eq_ok_iff.mp hdone'
    have hg := generatedFrom_of_artifactsOf hpackages (hcontract file hfile) hgs
    exact foldlM_keeps hdone (fun _ hc g hmem _ hok => originsFrom_of_claim hc (hg g hmem) hok)
      hclaims

end

/-! ### Responses -/

/-- What is reported of a run that fails. -/
structure Diagnosed (request : Descriptor.Request) (annotations : Annotated.Request)
    (fault : Fault) : Prop where
  /-- The response is the message of the fault, and no files. -/
  response : respond (generate request annotations) = { error := some fault.message }
  /-- The message has one line exactly when the values that it names have. -/
  singleLine_iff : SingleLine fault.message ↔ ∀ v ∈ fault.values, SingleLine v
  /-- Every line break is from a text that the request or its annotations give. -/
  breaks : ∀ c ∈ fault.message.toList, IsLineBreak c →
    ∃ t ∈ request.texts ++ annotations.texts, c ∈ t.toList
  /-- So texts of one line make a message of one line. -/
  singleLine : (∀ t ∈ request.texts ++ annotations.texts, SingleLine t) → SingleLine fault.message

/-- **The diagnostics of a run.** -/
theorem diagnosed_of_generate {request : Descriptor.Request} {annotations : Annotated.Request}
    {fault : Fault} (h : (generate request annotations).result = .error fault) :
    Diagnosed request annotations fault := by
  have hbreaks : BreaksFrom (fun c => ∃ t ∈ request.texts ++ annotations.texts, c ∈ t.toList)
      fault.message := by
    refine (breaksFrom_message_iff fault).mpr (faultsFrom_generate ?_ ?_ fault h)
    · exact fun t ht c hc _ => ⟨t, List.mem_append_left _ ht, hc⟩
    · exact fun t ht c hc _ => ⟨t, List.mem_append_right _ ht, hc⟩
  refine ⟨respond_of_error h, singleLine_message_iff fault, hbreaks, ?_⟩
  intro htexts c hc hbreak
  obtain ⟨t, ht, hct⟩ := hbreaks c hc hbreak
  exact htexts t ht c hct hbreak

/-- A request whose parameter gives two settings on lines of their own. -/
def twoLinesRequest : Descriptor.Request where
  parameter := some "package=com.example\ndto_package=dto"

theorem generate_twoLinesRequest : (generate twoLinesRequest {}).result =
    .error (.invalidParameter "package=com.example\ndto_package=dto" .notPackage) := by
  decide +kernel

theorem diagnosed_twoLinesRequest :
    (generate twoLinesRequest {}).result =
      .error (.invalidParameter "package=com.example\ndto_package=dto" .notPackage) ∧
    Diagnosed twoLinesRequest {}
      (.invalidParameter "package=com.example\ndto_package=dto" .notPackage) :=
  ⟨generate_twoLinesRequest, diagnosed_of_generate generate_twoLinesRequest⟩

/-- The message of a fault need not have one line: that of a part of the parameter has the line
breaks in it. -/
theorem not_forall_singleLine : ¬ ∀ (request : Descriptor.Request)
    (annotations : Annotated.Request) (fault : Fault),
    (generate request annotations).result = .error fault → SingleLine fault.message := by
  intro h
  have hline := h _ _ _ generate_twoLinesRequest
  exact absurd hline (by decide +kernel)

end RestScaffold
