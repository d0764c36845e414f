import Mathlib.Tactic.IntervalCases
import RestScaffold.Plugin
import RestScaffold.Proofs.OutputSet
import RestScaffold.Proofs.References
import RestScaffold.Proofs.Responses
import RestScaffold.Proofs.SeparateRuns

/-! # Notices

What a run that goes through reports on its way.

* `Run.notices_mapM`: the notices of runs one after the other;
* `typeNotices`, `fieldNotices`, `fileNotices`: what is noticed about a field and about a file, by
  its declarations;
* `outputNotices`: what is noticed about the outputs of a file;
* `Reported`, `reported_of_generate`: the notices of a run are these, in order;
* `notices_match_run`: what a process writes about a run, and what does not depend on how much it
  writes. -/

namespace RestScaffold

open Contract
open Target (Generated artifactsOf)

/-! ### Notices of runs -/

namespace Run

variable {α β : Type}

theorem notices_bind_of_ok {x : Run α} {a : α} (h : x.result = .ok a) (f : α → Run β) :
    (x >>= f).notices = x.notices ++ (f a).notices := by
  rw [notices_bind, h]

theorem notices_map (f : α → β) (x : Run α) : (f <$> x).notices = x.notices := by
  rw [map_eq_pure_bind, notices_bind]
  cases x.result <;> simp

theorem notices_mapM {f : α → Run β} : ∀ {as : List α} {bs : List β},
    (as.mapM f).result = .ok bs → (as.mapM f).notices = as.flatMap fun a => (f a).notices
  | [], _, _ => rfl
  | a :: as, bs, h => by
      rw [List.mapM_cons, result_bind, bind_eq_ok_iff] at h
      obtain ⟨b, hb, h⟩ := h
      rw [result_bind, bind_eq_ok_iff] at h
      obtain ⟨rest, hrest, -⟩ := h
      rw [List.mapM_cons, notices_bind_of_ok hb, notices_bind_of_ok hrest, notices_mapM hrest,
        notices_pure, List.append_nil, List.flatMap_cons]

end Run

/-! ### Fields -/

/-- What is noticed about the type of a field: a number that stands for no type. -/
def typeNotices (referrer : String) (f : Descriptor.Field) : List Notice :=
  match f.type with
  | some number =>
    if 1 ≤ number.toInt ∧ number.toInt ≤ 18 then []
    else [.unrecognizedType f.name referrer number]
  | none => []

/-- What is noticed about a field: its own type first, and for a map field those of key and
value. -/
def fieldNotices (registry : Registry) (referrer : String) (f : Descriptor.Field) : List Notice :=
  typeNotices referrer f ++
    match mapEntryOf registry f with
    | some entry => typeNotices referrer entry.key ++ typeNotices referrer entry.value
    | none => []

/-- The numbers of types are those from 1 to 18. -/
theorem no_type_iff {number : Int32} :
    (scalarOf? number = none ∧ number ≠ messageType ∧ number ≠ enumType) ↔
      ¬ (1 ≤ number.toInt ∧ number.toInt ≤ 18) := by
  constructor
  · rintro ⟨hs, hm, he⟩ ⟨hlow, hhigh⟩
    obtain ⟨i, hi⟩ : ∃ i, number.toInt = i := ⟨_, rfl⟩
    obtain rfl : Int32.ofInt i = number := by rw [← hi, Int32.ofInt_toInt]
    rw [hi] at hlow hhigh
    interval_cases i
    all_goals first | exact absurd hs (by decide) | exact hm (by decide) | exact he (by decide)
  · intro hrange
    have hne : ∀ m : Int32, 1 ≤ m.toInt ∧ m.toInt ≤ 18 → number ≠ m := by
      rintro m hm rfl
      exact hrange hm
    refine ⟨?_, hne _ (by decide), hne _ (by decide)⟩
    rw [scalarOf?, List.lookup_eq_none_iff]
    intro p hp
    refine bne_iff_ne.mpr (hne p.1 ?_)
    revert p
    decide

theorem notices_kindOf (registry : Registry) (referrer : String) (f : Descriptor.Field) :
    (kindOf registry referrer f).notices = typeNotices referrer f := by
  unfold kindOf typeNotices
  cases f.type with
  | none => rfl
  | some number =>
      have hknown : ¬ (scalarOf? number = none ∧ number ≠ messageType ∧ number ≠ enumType) →
          1 ≤ number.toInt ∧ number.toInt ≤ 18 := fun h => not_not.mp (mt no_type_iff.mpr h)
      simp only
      cases hs : scalarOf? number with
      | some s =>
          rw [if_pos (hknown (by simp [hs]))]
          rfl
      | none =>
          simp only
          by_cases hm : number = messageType
          · rw [if_pos hm, if_pos (hknown (by simp [hm]))]
            exact Run.notices_map _ _
          · rw [if_neg hm]
            by_cases he : number = enumType
            · rw [if_pos he, if_pos (hknown (by simp [he]))]
              exact Run.notices_map _ _
            · rw [if_neg he, if_neg (no_type_iff.mp ⟨hs, hm, he⟩)]
              rfl

theorem notices_cardinalityOf {registry : Registry} {referrer : String} {f : Descriptor.Field}
    {c : Cardinality} (h : (cardinalityOf registry referrer f).result = .ok c) :
    (cardinalityOf registry referrer f).notices =
      match mapEntryOf registry f with
      | some entry => typeNotices referrer entry.key ++ typeNotices referrer entry.value
      | none => [] := by
  rcases cardinalityOf_eq_ok_iff.mp h with
    ⟨hnone, -⟩ | ⟨entry, key, value, hsome, hkey, hvalue, -⟩
  · unfold mapEntryOf at hnone
    rw [mapEntryOf, hnone, cardinalityOf]
    by_cases hl : f.label = repeatedLabel
    · rw [if_pos hl] at hnone ⊢
      rw [hnone]
      rfl
    · rw [if_neg hl]
      rfl
  · unfold mapEntryOf at hsome
    rw [mapEntryOf, hsome, cardinalityOf]
    by_cases hl : f.label = repeatedLabel
    · rw [if_pos hl] at hsome ⊢
      rw [hsome]
      simp only
      rw [Run.notices_bind_of_ok hkey, Run.notices_bind_of_ok hvalue, Run.notices_pure,
        List.append_nil, notices_kindOf, notices_kindOf]
    · rw [if_neg hl] at hsome
      exact absurd hsome (by simp)

/-- A field that could be resolved was noticed with its type and, for a map, those of its entry. -/
theorem notices_contractField {registry : Registry} {s : SourceFile} {d : DeclaredMessage}
    {index : Nat} {f : Descriptor.Field} {field : Contract.Field}
    (h : (contractField registry s d index f).result = .ok field) :
    (contractField registry s d index f).notices = fieldNotices registry d.fullName f := by
  obtain ⟨kind, cardinality, hkind, hcardinality, -⟩ := contractField_eq_ok_iff.mp h
  rw [contractField, Run.notices_bind_of_ok hkind, Run.notices_bind_of_ok hcardinality,
    Run.notices_pure, List.append_nil, notices_kindOf, notices_cardinalityOf hcardinality]
  rfl

/-! ### Files -/

/-- What is noticed about a message: its fields in order. -/
def messageNotices (registry : Registry) (p : String × Descriptor.Message) : List Notice :=
  p.2.fields.flatMap (fieldNotices registry p.1)

/-- What is noticed about a file: the fields of its messages in order, map entries left out, and
last that it is not listed. -/
def fileNotices (registry : Registry) (listed : List String) (d : Descriptor.File) : List Notice :=
  (d.namedMessages.filter (!·.2.isMapEntry)).flatMap (messageNotices registry) ++
    if d.name ∈ listed then [] else [.skipping d.name]

theorem notices_contractMessage {registry : Registry} {s : SourceFile} {d : DeclaredMessage}
    {m : Message} (h : (contractMessage registry s d).result = .ok m) :
    (contractMessage registry s d).notices =
      messageNotices registry (d.fullName, d.descriptor) := by
  rw [contractMessage, Run.result_bind, bind_eq_ok_iff] at h
  obtain ⟨fields, hfields, -⟩ := h
  have heach : ∀ p ∈ d.descriptor.fields.zipIdx,
      (contractField registry s d p.2 p.1).notices = fieldNotices registry d.fullName p.1 := by
    intro p hp
    rw [Run.result_mapM, mapM_eq_ok_iff] at hfields
    obtain ⟨field, -, hfield⟩ := exists_right_of_forall₂ hfields p hp
    exact notices_contractField hfield
  rw [contractMessage, Run.notices_bind_of_ok hfields, Run.notices_mapM hfields, Run.notices_pure,
    List.append_nil, List.flatMap_congr heach, messageNotices]
  conv_rhs => rw [← List.zipIdx_map_fst 0 d.descriptor.fields, List.flatMap_map]

theorem notices_contractMessages {registry : Registry} {s : SourceFile} {ms : List Message}
    (h : (s.contractMessages registry).result = .ok ms) :
    (s.contractMessages registry).notices =
      (s.descriptor.namedMessages.filter (!·.2.isMapEntry)).flatMap (messageNotices registry) := by
  have hall := contractMessages_eq_ok_iff.mp h
  have heach : ∀ d ∈ s.declared.filter (!·.descriptor.isMapEntry),
      (contractMessage registry s d).notices =
        messageNotices registry (d.fullName, d.descriptor) := by
    intro d hd
    obtain ⟨m, -, hm⟩ := exists_right_of_forall₂ hall d hd
    exact notices_contractMessage hm
  rw [← declaredMessages_map s.descriptor s.annotated, List.filter_map, List.flatMap_map]
  rw [SourceFile.contractMessages] at h ⊢
  rw [Run.notices_mapM h, List.flatMap_congr heach]
  rfl

theorem notices_resolveMessages {registry : Registry} {s : SourceFile}
    {p : SourceFile × List Message} {listed : List String}
    (hs : s.isListed = listed.contains s.descriptor.name)
    (h : (resolveMessages registry s).result = .ok p) :
    (resolveMessages registry s).notices = fileNotices registry listed s.descriptor := by
  obtain ⟨-, hms⟩ := resolveMessages_eq_ok_iff.mp h
  rw [resolveMessages, Run.notices_bind_of_ok hms, notices_contractMessages hms, fileNotices, hs]
  by_cases hl : s.descriptor.name ∈ listed
  · rw [if_pos hl, List.contains_iff_mem.mpr hl]
    rfl
  · rw [if_neg hl, Bool.eq_false_iff.mpr (mt List.contains_iff_mem.mp hl)]
    rfl

theorem notices_contractFiles {options : Options} {request : Descriptor.Request}
    {annotations : Annotated.Request} {files : List File}
    (h : (contractFiles options request annotations).result = .ok files) :
    (contractFiles options request annotations).notices =
      request.files.flatMap
        (fileNotices (registryOf options request annotations) request.listed) := by
  rw [contractFiles, Run.result_bind, bind_eq_ok_iff] at h
  obtain ⟨resolved, hresolved, -⟩ := h
  have hall := hresolved
  rw [Run.result_mapM, mapM_eq_ok_iff] at hall
  have heach : ∀ s ∈ sourceFiles options request annotations,
      (resolveMessages (registryOf options request annotations) s).notices =
        fileNotices (registryOf options request annotations) request.listed s.descriptor := by
    intro s hs
    obtain ⟨p, -, hp⟩ := exists_right_of_forall₂ hall s hs
    exact notices_resolveMessages (isListed_of_mem_sourceFiles hs) hp
  have hflat := List.flatMap_congr heach
  rw [sourceFiles, List.flatMap_map, List.flatMap_map] at hflat
  rw [contractFiles, Run.notices_bind_of_ok hresolved, Run.notices_mapM hresolved,
    Run.notices_ofExcept, List.append_nil, sourceFiles, List.flatMap_map]
  exact hflat

/-! ### Outputs -/

/-- What is noticed about the outputs that a file is made into, if they are reported. -/
def outputNotices (verbose : Bool) (file : File) (names : List String) : List Notice :=
  if verbose then names.map fun name => .generating name file.name else []

variable {head : String} {done result : List Published} {verbose : Bool} {file : File}

theorem notices_publish {g : Generated}
    (h : (publish head verbose file done g).result = .ok result) :
    (publish head verbose file done g).notices = outputNotices verbose file [g.artifact.path] := by
  unfold publish at h ⊢
  simp only at h ⊢
  split
  · rename_i first hfound
    rw [hfound] at h
    exact absurd h (by simp)
  · cases verbose <;> rfl

theorem notices_foldlM_publish {gs : List Generated} :
    ∀ {done : List Published}, (gs.foldlM (publish head verbose file) done).result = .ok result →
      (gs.foldlM (publish head verbose file) done).notices =
        outputNotices verbose file (gs.map (·.artifact.path)) := by
  induction gs with
  | nil => intro done _; cases verbose <;> rfl
  | cons g gs ih =>
      intro done h
      rw [List.foldlM_cons, Run.result_bind, bind_eq_ok_iff] at h
      obtain ⟨added, hadded, hrest⟩ := h
      rw [List.foldlM_cons, Run.notices_bind_of_ok hadded, notices_publish hadded, ih hrest]
      cases verbose <;> rfl

theorem notices_publishFile {options : Options} {outputs : List OutputFile}
    (hm : MadeFrom options head file outputs)
    (h : (publishFile options head done file).result = .ok result) :
    (publishFile options head done file).notices =
      outputNotices options.verbose file (outputs.map (·.name)) := by
  obtain ⟨gs, hgs, rfl⟩ := hm
  have hmade : (Run.ofExcept (artifactsOf options file)).result = .ok gs := hgs
  rw [publishFile, Run.result_bind, hmade] at h
  rw [publishFile, Run.notices_bind_of_ok hmade, Run.notices_ofExcept, List.nil_append,
    notices_foldlM_publish h, List.map_map]
  rfl

theorem notices_foldlM_publishFile {options : Options} {parts : List (File × List OutputFile)} :
    (∀ p ∈ parts, MadeFrom options head p.1 p.2) → ∀ {done : List Published},
      ((parts.map (·.1)).foldlM (publishFile options head) done).result = .ok result →
        ((parts.map (·.1)).foldlM (publishFile options head) done).notices =
          parts.flatMap fun p => outputNotices options.verbose p.1 (p.2.map (·.name)) := by
  induction parts with
  | nil => intro _ done _; rfl
  | cons p parts ih =>
      intro hm done h
      obtain ⟨hp, hparts⟩ := List.forall_mem_cons.mp hm
      rw [List.map_cons, List.foldlM_cons, Run.result_bind, bind_eq_ok_iff] at h
      obtain ⟨added, hadded, hrest⟩ := h
      rw [List.map_cons, List.foldlM_cons, Run.notices_bind_of_ok hadded,
        notices_publishFile hp hadded, ih hparts hrest, List.flatMap_cons]

/-! ### Runs -/

/-- The notices of a run that went through: what is noticed about the files of the request, in
order, and then, if it was asked for, one notice for each output, in order, with the file that it is
made from. These files are the listed ones of the request. -/
def Reported (r : Descriptor.Request) (annotations : Annotated.Request) (outputs : List OutputFile)
    (notices : List Notice) : Prop :=
  ∃ options parts, OutputsByFile options r annotations parts ∧ parts.flatMap (·.2) = outputs ∧
    parts.map (·.1.name) = (r.files.filter fun d => r.listed.contains d.name).map (·.name) ∧
    notices = r.files.flatMap (fileNotices (registryOf options r annotations) r.listed) ++
      if options.verbose then parts.flatMap fun p => p.2.map fun o => .generating o.name p.1.name
      else []

theorem reported_of_generate {r : Descriptor.Request} {annotations : Annotated.Request}
    {outputs : List OutputFile} (h : (generate r annotations).result = .ok outputs) :
    Reported r annotations outputs (generate r annotations).notices := by
  obtain ⟨options, parts, hby, houtputs, -⟩ := exists_outputsByFile h
  refine ⟨options, parts, hby, houtputs, ?_, ?_⟩
  · rw [map_name_of_contractFiles hby.contract, List.map_map]
    rfl
  · have hoptions : (Run.ofExcept (Options.parse r.parameter)).result = .ok options := hby.parsed
    simp only [generate, Run.result_bind, bind_eq_ok_iff] at h
    obtain ⟨_, ho, _, hf, done, hdone, -⟩ := h
    obtain rfl := Except.ok.inj (hoptions.symm.trans ho)
    obtain rfl := Except.ok.inj (hby.contract.symm.trans hf)
    rw [generate, Run.notices_bind_of_ok hoptions, Run.notices_ofExcept, List.nil_append,
      Run.notices_bind_of_ok hf, Run.notices_bind_of_ok hdone, Run.notices_pure, List.append_nil,
      notices_contractFiles hf, notices_foldlM_publishFile hby.made hdone]
    congr 1
    cases hv : options.verbose <;> simp [outputNotices, Function.comp_def]

/-! ### Verbosity -/

theorem result_generate_of_parse {r : Descriptor.Request} {annotations : Annotated.Request}
    {options : Options} (ho : Options.parse r.parameter = .ok options) :
    (generate r annotations).result = (contractFiles options r annotations).result >>= fun files =>
      (files.foldlM (fun done file =>
        (publishFile options (banner r.compiler) done file).result) []) >>= fun done =>
          .ok (done.map (·.output)) := by
  simp only [generate, Run.result_bind, Run.result_ofExcept, ho, Run.result_foldlM]
  rfl

/-- Two parameters that differ in nothing but how much is reported come to the same result. -/
theorem result_generate_of_verbose {r : Descriptor.Request} {annotations : Annotated.Request}
    {parameter : Option String} {options : Options} {verbose : Bool}
    (ho : Options.parse r.parameter = .ok options)
    (ho' : Options.parse parameter = .ok { options with verbose := verbose }) :
    (generate { r with parameter := parameter } annotations).result =
      (generate r annotations).result := by
  rw [result_generate_of_parse (r := { r with parameter := parameter }) ho',
    result_generate_of_parse ho]
  simp only [result_publishFile]
  rfl

/-! ### What is written -/

/-- **Notices match the run.** When an input is read and its request goes through, exactly the
notices of its files and outputs are written, a line for each. Whether outputs are reported makes no
difference to the response. -/
theorem notices_match_run :
    (∀ input request annotations outputs, Plugin.read input = .ok (request, annotations) →
      (generate request annotations).result = .ok outputs →
        ∃ notices, Reported request annotations outputs notices ∧
          Plugin.run input = .answered notices { files := outputs } ∧
          (Plugin.run input).diagnostics = String.join (notices.map fun n => n.text ++ "\n")) ∧
    ∀ (request : Descriptor.Request) annotations parameter options verbose,
      Options.parse request.parameter = .ok options →
        Options.parse parameter = .ok { options with verbose := verbose } →
          respond (generate { request with parameter := parameter } annotations) =
            respond (generate request annotations) := by
  constructor
  · intro input request annotations outputs hread hgenerate
    have hrun : Plugin.run input =
        .answered (generate request annotations).notices { files := outputs } := by
      rw [Plugin.run, hread]
      simp only [respond, hgenerate]
    refine ⟨_, reported_of_generate hgenerate, hrun, ?_⟩
    rw [hrun, Plugin.Outcome.diagnostics, Option.map_none, Option.getD_none, String.append_empty]
  · intro request annotations parameter options verbose ho ho'
    rw [respond, respond, result_generate_of_verbose ho ho']

/-- A request for detail about two files. One is not listed, and has a field of unknown type. The
other has a map with unknown types, a field without a type and one of unknown type. -/
def codesBytes : List UInt8 :=
  Wire.write
    [.text 1 "near.proto",
     .text 2 "verbose",
     .message 15 [.text 1 "far.proto", .text 2 "far",
       .message 4 [.text 1 "Far", .message 2 [.text 1 "odd", .int 5 99]]],
     .message 15 [.text 1 "near.proto", .text 2 "near",
       .message 4 [.text 1 "Near",
         .message 2 [.text 1 "codes", .int 4 3, .int 5 11, .text 6 ".near.Near.CodesEntry"],
         .message 2 [.text 1 "bare"],
         .message 2 [.text 1 "extra", .int 5 19],
         .message 3 [.text 1 "CodesEntry",
           .message 2 [.text 1 "key", .int 3 1, .int 5 42],
           .message 2 [.text 1 "value", .int 3 2, .int 5 0],
           .message 7 [.int 7 1]]]]]

theorem notices_match_run_codesBytes :
    ∃ request annotations outputs notices, Plugin.read codesBytes = .ok (request, annotations) ∧
      (generate request annotations).result = .ok outputs ∧
      Reported request annotations outputs notices ∧
      (Plugin.run codesBytes).diagnostics = String.join
        (["Field `odd` of `far.Far` has unrecognized type 99",
          "Skipping far.proto, not listed for generation",
          "Field `key` of `near.Near` has unrecognized type 42",
          "Field `value` of `near.Near` has unrecognized type 0",
          "Field `extra` of `near.Near` has unrecognized type 19",
          "Generating near/dto/Near.java from near.proto"].map (· ++ "\n")) ∧
      Plugin.run codesBytes = .answered notices { files := outputs } ∧
      respond (generate { request with parameter := none } annotations) =
        respond (generate request annotations) := by
  obtain ⟨⟨request, annotations⟩, hread⟩ : ∃ views, Plugin.read codesBytes = .ok views :=
    exists_ok_of_isOk (by decide +kernel)
  obtain ⟨outputs, hgenerate⟩ : ∃ outputs, (generate request annotations).result = .ok outputs := by
    have hok : (Plugin.read codesBytes).toOption.any (fun p => (generate p.1 p.2).result.isOk) =
        true := by decide +kernel
    rw [hread] at hok
    exact exists_ok_of_isOk hok
  have hparameter : request.parameter = some "verbose" := by
    have hsame : (Plugin.read codesBytes).toOption.map (·.1.parameter) = some (some "verbose") := by
      decide +kernel
    rw [hread] at hsame
    exact Option.some.inj hsame
  have hverbose : Options.parse request.parameter = .ok { verbose := true } := by
    rw [hparameter]
    decide +kernel
  obtain ⟨notices, hreported, hrun, -⟩ :=
    notices_match_run.1 codesBytes request annotations outputs hread hgenerate
  exact ⟨request, annotations, outputs, notices, hread, hgenerate, hreported, by decide +kernel,
    hrun, notices_match_run.2 request annotations none _ false hverbose (by decide +kernel)⟩

end RestScaffold
