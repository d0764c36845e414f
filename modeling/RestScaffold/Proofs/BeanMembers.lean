import RestScaffold.Proofs.BeanLines
import RestScaffold.Proofs.SnakeNames

/-! # Members of beans

The names that a bean declares are made of names of its message, and nothing keeps two of them from
meeting: a choice gets a getter beside those of the fields, and its enum a constant beside those
of its fields.

* `Bean.DeclaresOnce`: a bean declares no field, no getter, no enum and no constant twice;
* `NamesApart`, `declaresOnce_iff`: what it takes of the names of the message;
* `declaresOnce_iff_of_isSnake`: what it takes of different names in snake case;
* `beanMembers_of_generate`: the beans of a run;
* `not_forall_declaresOnce`: a bean that declares a getter and a constant twice. -/

namespace RestScaffold

namespace Target

open Contract (Message Choice)
open Naming (memberName typeName IsSnake)
open Text (upper)

/-! ### Names that a bean declares -/

/-- The names of the private fields. -/
def Bean.fieldNames (b : Bean) : List String :=
  b.properties.map (·.name)

/-- The names of the getters, those of the current cases behind those of the fields. -/
def Bean.getterNames (b : Bean) : List String :=
  b.properties.map Property.getter ++ b.caseEnums.map CaseEnum.getter

/-- The names of the enums. -/
def Bean.enumNames (b : Bean) : List String :=
  b.caseEnums.map (·.enumName)

/-- The constants of an enum, with the one for a choice without a value. -/
def CaseEnum.constants (c : CaseEnum) : List String :=
  c.cases ++ [CaseEnum.notSet]

/-- The bean declares nothing twice. -/
structure Bean.DeclaresOnce (b : Bean) : Prop where
  fields : b.fieldNames.Nodup
  getters : b.getterNames.Nodup
  enums : b.enumNames.Nodup
  constants : ∀ c ∈ b.caseEnums, c.constants.Nodup

/-! ### Names of the message -/

/-- The name of a field whose getter is that of the case of a choice. -/
def caseField (choice : String) : String :=
  choice ++ "_case"

/-- The name of a field whose constant is that of a choice without a value. -/
def notSetField : String := "unspecified"

/-- The fields that getters are declared for, with one for each choice. -/
def accessorNames (m : Message) : List String :=
  m.fields.map (·.name) ++ m.choices.map fun c => caseField c.name

/-- The fields that constants are declared for, with one for no value. -/
def constantNames (c : Choice) : List String :=
  c.fields.map (·.name) ++ [notSetField]

/-- The names of the message stay different when they become names of members and constants. -/
structure NamesApart (m : Message) : Prop where
  accessors : ((accessorNames m).map memberName).Nodup
  constants : ∀ c ∈ m.choices, ((constantNames c).map upper).Nodup

theorem typeName_eq_iff {s t : String} : typeName s = typeName t ↔ memberName s = memberName t := by
  rw [Naming.typeName_eq_upperFirst_memberName, Naming.typeName_eq_upperFirst_memberName,
    Naming.upperFirst_memberName_inj]

theorem caseField_eq (choice : String) : caseField choice = choice ++ "_" ++ "case" := by
  rw [caseField, String.append_assoc]
  rfl

theorem typeName_caseField (choice : String) : typeName (caseField choice) =
    typeName choice ++ "Case" := by
  have hcase : typeName "case" = "Case" := by decide +kernel
  rw [caseField_eq, Naming.typeName_append, hcase]

/-- The name of the getter that an accessor has. -/
def getterName (name : String) : String :=
  "get" ++ typeName name

theorem getterName_eq_iff {s t : String} :
    getterName s = getterName t ↔ memberName s = memberName t := by
  rw [← typeName_eq_iff, ← String.toList_inj, ← String.toList_inj]
  simp [getterName]

theorem getterNames_ofMessage (m : Message) :
    (Bean.ofMessage m).getterNames = (accessorNames m).map getterName := by
  have hfield : ∀ f : Contract.Field, (Property.ofField f).getter = getterName f.name := by
    intro f
    rw [getterName, Naming.typeName_eq_upperFirst_memberName]
    rfl
  have hchoice : ∀ c : Choice, (CaseEnum.ofChoice c).getter = getterName (caseField c.name) := by
    intro c
    rw [getterName, typeName_caseField, Naming.typeName_eq_upperFirst_memberName,
      ← String.append_assoc]
    rfl
  simp only [Bean.getterNames, Bean.ofMessage, accessorNames, List.map_append, List.map_map,
    Function.comp_def, hfield, hchoice]

theorem constants_ofChoice (c : Choice) :
    (CaseEnum.ofChoice c).constants = (constantNames c).map upper := by
  have hnotSet : upper notSetField = CaseEnum.notSet := by decide +kernel
  simp only [CaseEnum.constants, CaseEnum.cases, CaseEnum.ofChoice, constantNames, List.map_append,
    List.map_map, Function.comp_def, List.map_cons, List.map_nil, hnotSet]
  rfl

theorem declaresOnce_iff (m : Message) : (Bean.ofMessage m).DeclaresOnce ↔ NamesApart m := by
  have hgetters : (Bean.ofMessage m).getterNames.Nodup ↔
      ((accessorNames m).map memberName).Nodup := by
    rw [getterNames_ofMessage]
    exact nodup_map_congr fun s _ t _ => getterName_eq_iff
  have hconstants : (∀ c ∈ (Bean.ofMessage m).caseEnums, c.constants.Nodup) ↔
      ∀ c ∈ m.choices, ((constantNames c).map upper).Nodup := by
    simp only [Bean.ofMessage, List.forall_mem_map, constants_ofChoice]
  constructor
  · intro h
    exact ⟨hgetters.mp h.getters, hconstants.mp h.constants⟩
  · intro h
    have hall := h.accessors
    rw [accessorNames, List.map_append, List.map_map, List.map_map, List.nodup_append] at hall
    obtain ⟨hfields, hchoices, -⟩ := hall
    refine ⟨?_, hgetters.mpr h.accessors, ?_, hconstants.mpr h.constants⟩
    · simpa [Bean.fieldNames, Bean.ofMessage, Property.ofField, Function.comp_def] using hfields
    · -- Enums of two choices have one name when the getters of their cases have.
      have henums : (m.choices.map fun c => (CaseEnum.ofChoice c).enumName).Nodup := by
        refine (nodup_map_congr fun c _ d _ => ?_).mpr hchoices
        rw [Function.comp_apply, Function.comp_apply, ← typeName_eq_iff, typeName_caseField,
          typeName_caseField, ← String.toList_inj, ← String.toList_inj]
        simp [CaseEnum.ofChoice]
      simpa [Bean.enumNames, Bean.ofMessage, Function.comp_def] using henums

/-! ### Names in snake case -/

theorem isSnake_caseField {choice : String} (h : IsSnake choice) : IsSnake (caseField choice) := by
  rw [caseField_eq]
  exact h.append (by decide +kernel)

/-- Different names in snake case meet only where a field has the name that stands for the case of a
choice, or for a choice without a value. -/
theorem declaresOnce_iff_of_isSnake {m : Message}
    (hsub : ∀ c ∈ m.choices, c.fields.Sublist m.fields)
    (hf : ∀ f ∈ m.fields, IsSnake f.name) (hc : ∀ c ∈ m.choices, IsSnake c.name)
    (hfields : (m.fields.map (·.name)).Nodup) (hchoices : (m.choices.map (·.name)).Nodup) :
    (Bean.ofMessage m).DeclaresOnce ↔
      (∀ c ∈ m.choices, ∀ f ∈ m.fields, f.name ≠ caseField c.name) ∧
        ∀ c ∈ m.choices, ∀ f ∈ c.fields, f.name ≠ notSetField := by
  have haccessors : ((accessorNames m).map memberName).Nodup ↔
      ∀ c ∈ m.choices, ∀ f ∈ m.fields, f.name ≠ caseField c.name := by
    have hsnake : ∀ name ∈ accessorNames m, IsSnake name := by
      rw [accessorNames, List.forall_mem_append, List.forall_mem_map, List.forall_mem_map]
      exact ⟨hf, fun c hmem => isSnake_caseField (hc c hmem)⟩
    have hcases : (m.choices.map fun c => caseField c.name).Nodup := by
      refine (nodup_map_congr fun c _ d _ => ?_).mpr hchoices
      rw [caseField, caseField, ← String.toList_inj, ← String.toList_inj]
      simp
    rw [nodup_map_iff fun s hs t ht =>
      Naming.memberName_inj_of_isSnake (hsnake s hs) (hsnake t ht), accessorNames,
      List.nodup_append, and_iff_right hfields, and_iff_right hcases]
    simp only [List.forall_mem_map]
    exact ⟨fun h c hmem f hmem' => h f hmem' c hmem, fun h f hmem c hmem' => h c hmem' f hmem⟩
  have hconstants : ∀ c ∈ m.choices, (((constantNames c).map upper).Nodup ↔
      ∀ f ∈ c.fields, f.name ≠ notSetField) := by
    intro c hmem
    have hsnake : ∀ name ∈ constantNames c, IsSnake name := by
      rw [constantNames, List.forall_mem_append, List.forall_mem_map, List.forall_mem_singleton]
      exact ⟨fun f hf' => hf f ((hsub c hmem).subset hf'), by decide +kernel⟩
    have hnames : (c.fields.map (·.name)).Nodup := hfields.sublist ((hsub c hmem).map _)
    rw [nodup_map_iff fun s hs t ht => Naming.upper_inj_of_isSnake (hsnake s hs) (hsnake t ht),
      constantNames, List.nodup_append, and_iff_right hnames,
      and_iff_right (List.nodup_singleton _)]
    simp only [List.forall_mem_map, List.forall_mem_singleton]
  rw [declaresOnce_iff]
  constructor
  · intro h
    exact ⟨haccessors.mp h.accessors, fun c hmem => (hconstants c hmem).mp (h.constants c hmem)⟩
  · rintro ⟨hcases, hnotSet⟩
    exact ⟨haccessors.mpr hcases, fun c hmem => (hconstants c hmem).mpr (hnotSet c hmem)⟩

end Target

/-! ### Beans of a run -/

open Contract (contractFiles Message)
open Target (Bean NamesApart ClassKind sourcePath caseField notSetField linesOf)
open Text (EndsLine splitAt)

/-- What the file that is generated for a message declares. -/
structure BeanMembers (m : Message) (content : String) : Prop where
  /-- The file ends in the class, and what stands between its braces are the members of the bean. -/
  laidOut : ∃ before, EndsLine before ∧ content.toList = before ++
    (ClassKind.bean.declaration m.name ++ "\n" ++ (Bean.ofMessage m).body ++ "\x7d").toList
  /-- These are written with the names of the private fields, of the getters, and of the enums and
  their constants. -/
  members : ∃ before, splitAt '\n' content = before ++
    splitAt '\n' (ClassKind.bean.declaration m.name) ++
      (Bean.ofMessage m).blocks.flatMap (fun block => "" :: linesOf block) ++ ["\x7d"]
  once_iff : (Bean.ofMessage m).DeclaresOnce ↔ NamesApart m
  /-- Different names in snake case meet only in the two names that are made up for a choice. -/
  once_iff_of_isSnake : (∀ f ∈ m.fields, Naming.IsSnake f.name) →
    (∀ c ∈ m.choices, Naming.IsSnake c.name) → (m.fields.map (·.name)).Nodup →
    (m.choices.map (·.name)).Nodup → ((Bean.ofMessage m).DeclaresOnce ↔
      (∀ c ∈ m.choices, ∀ f ∈ m.fields, f.name ≠ caseField c.name) ∧
        ∀ c ∈ m.choices, ∀ f ∈ c.fields, f.name ≠ notSetField)

theorem exists_contentOf_bean_eq (request : Descriptor.Request) (b : Bean) :
    ∃ before, EndsLine before ∧ (contentOf request (.bean b)).toList = before ++
      (ClassKind.bean.declaration b.name ++ "\n" ++ b.body ++ "\x7d").toList := by
  obtain ⟨before, hbefore, htext⟩ := Target.Artifact.exists_bean_text_eq b
  have hbanner : EndsLine (banner request.compiler ++ "\n\n").toList := Or.inr (by simp)
  refine ⟨_, hbanner.append hbefore, ?_⟩
  rw [contentOf, String.toList_append, htext, List.append_assoc]

theorem exists_splitAt_contentOf_bean_eq (request : Descriptor.Request) (b : Bean) :
    ∃ before, splitAt '\n' (contentOf request (.bean b)) = before ++
      splitAt '\n' (ClassKind.bean.declaration b.name) ++
        b.blocks.flatMap (fun block => "" :: linesOf block) ++ ["\x7d"] := by
  have hcontent : contentOf request (.bean b) =
      banner request.compiler ++ "\n" ++ ("" ++ "\n" ++ (Target.Artifact.bean b).text) := by
    simp [contentOf, ← String.toList_inj]
  refine ⟨splitAt '\n' (banner request.compiler) ++ splitAt '\n' "" ++
    splitAt '\n' (Target.Artifact.bean b).head ++ "" :: Target.docLines b.comment, ?_⟩
  rw [hcontent, Text.splitAt_append_lf, Text.splitAt_append_lf, Target.splitAt_bean_text]
  simp

/-- **The beans of a run.** -/
theorem beanMembers_of_generate {request : Descriptor.Request} {annotations : Annotated.Request}
    {outputs : List OutputFile} (h : (generate request annotations).result = .ok outputs) :
    ∃ options files, Options.parse request.parameter = .ok options ∧
      (contractFiles options request annotations).result = .ok files ∧
      ∀ file ∈ files, ∀ m ∈ file.messages, ∃ o ∈ outputs, o.name = sourcePath m.package m.name ∧
        BeanMembers m o.content := by
  obtain ⟨options, files, ho, hf, hp⟩ := artifactsPublished_of_generate h
  refine ⟨options, files, ho, hf, fun file hfile m hm => ?_⟩
  have hsub : ∀ c ∈ m.choices, c.fields.Sublist m.fields := by
    obtain ⟨all, -, hfiles⟩ := Contract.forall₂_of_contractFiles hf
    obtain ⟨d, -, messages, hms, hok⟩ := exists_left_of_forall₂ hfiles file hfile
    obtain ⟨services, -, rfl⟩ := Contract.contractFile_eq_ok_iff.mp hok
    obtain ⟨declared, -, hmessage⟩ :=
      exists_left_of_forall₂ (Contract.contractMessages_eq_ok_iff.mp hms) m hm
    obtain ⟨fields, -, rfl⟩ := Contract.contractMessage_eq_ok_iff.mp hmessage
    exact fun c hc => Contract.sublist_of_mem_contractChoices hc
  exact ⟨_, bean_mem_outputs hp hfile hm, rfl, exists_contentOf_bean_eq request (.ofMessage m),
    exists_splitAt_contentOf_bean_eq request (.ofMessage m), Target.declaresOnce_iff m,
    Target.declaresOnce_iff_of_isSnake hsub⟩

/-- A message with a choice whose getter a field has as well, and whose constant for no value a
field has as well. -/
def contactRequest : Descriptor.Request where
  listed := ["contact.proto"]
  files := [{
    name? := some "contact.proto"
    package := "p"
    messages := [{
      name := "Person"
      fields := [
        { name := "contact_case", number := 1, type := some 9 },
        { name := "email", number := 2, type := some 9, choiceIndex := some 0 },
        { name := "unspecified", number := 3, type := some 9, choiceIndex := some 0 }]
      choices := ["contact"] }] }]

theorem beanMembers_contactRequest : ∃ outputs options files,
    (generate contactRequest {}).result = .ok outputs ∧
    Options.parse contactRequest.parameter = .ok options ∧
    (contractFiles options contactRequest {}).result = .ok files ∧
    ∀ file ∈ files, ∀ m ∈ file.messages, ∃ o ∈ outputs, o.name = sourcePath m.package m.name ∧
      BeanMembers m o.content := by
  obtain ⟨outputs, h⟩ : ∃ outputs, (generate contactRequest {}).result = .ok outputs :=
    exists_ok_of_isOk (by decide +kernel)
  obtain ⟨options, files, ho, hf, hbeans⟩ := beanMembers_of_generate h
  exact ⟨outputs, options, files, h, ho, hf, hbeans⟩

/-- The bean of `Person` declares `getContactCase` twice, though the names of the fields are different,
and so are those of the choices. -/
theorem not_forall_declaresOnce :
    ¬ ∀ (request : Descriptor.Request) (annotations : Annotated.Request) (options : Options)
        (files : List Contract.File) (outputs : List OutputFile),
      (∀ q ∈ request.namedMessages, (q.2.fields.map (·.name)).Nodup ∧ q.2.choices.Nodup) →
      (generate request annotations).result = .ok outputs →
      Options.parse request.parameter = .ok options →
      (contractFiles options request annotations).result = .ok files →
      ∀ file ∈ files, ∀ m ∈ file.messages, (Bean.ofMessage m).DeclaresOnce := by
  obtain ⟨outputs, h⟩ : ∃ outputs, (generate contactRequest {}).result = .ok outputs :=
    exists_ok_of_isOk (by decide +kernel)
  obtain ⟨options, files, ho, hf, -⟩ := artifactsPublished_of_generate h
  obtain rfl : {} = options := Except.ok.inj ho
  have hclash : (match (contractFiles {} contactRequest {}).result with
      | .ok files => files.any fun file => file.messages.any fun m =>
          decide (¬ (Bean.ofMessage m).getterNames.Nodup)
      | .error _ => false) = true := by
    decide +kernel
  rw [hf] at hclash
  simp only [List.any_eq_true, decide_eq_true_eq] at hclash
  obtain ⟨file, hfile, m, hm, hrepeat⟩ := hclash
  intro hall
  exact hrepeat (hall contactRequest {} {} files outputs (by decide +kernel) h ho hf file hfile m
    hm).getters

end RestScaffold
