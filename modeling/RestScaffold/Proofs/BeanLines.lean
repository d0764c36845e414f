import RestScaffold.Proofs.CamelCase
import RestScaffold.Proofs.Scripts

/-! # Lines of beans

The source of a bean, line by line, whatever its names are.

* `unbroken_memberName`, `unbroken_enumName`: names that are made of words have no line feed;
* `fieldBlock`, `enumBlock`, `caseBlock`, `getterBlock`, `setterBlock`: the members of a bean as
  texts, each with its depth;
* `Bean.members`, `Bean.blocks`, `map_linesAt_members`: the scripts of the members and their texts;
* `Bean.body_eq`: the sections of a bean are one row of members;
* `bean_text_eq_append`: what is trimmed off when a bean is written;
* `splitAt_bean_text`: head, comment, declaration and members of a bean. -/

namespace RestScaffold.Target

open Text (Unbroken unbroken_append splitAt)

/-! ### Names made of words -/

theorem unbroken_memberName (name : String) : Unbroken (Naming.memberName name) :=
  Text.unbroken_of_isAlphanum (Naming.isAlphanum_of_mem_memberName name)

theorem unbroken_typeName (name : String) : Unbroken (Naming.typeName name) := by
  rw [Naming.typeName_eq_upperFirst_memberName]
  exact Text.unbroken_upperFirst (unbroken_memberName name)

theorem unbroken_enumName (c : Contract.Choice) : Unbroken (CaseEnum.ofChoice c).enumName :=
  unbroken_append.mpr ⟨by decide, unbroken_typeName c.name⟩

theorem unbroken_caseGetter (c : Contract.Choice) : Unbroken (CaseEnum.ofChoice c).getter := by
  have hname := Text.unbroken_upperFirst (unbroken_memberName c.name)
  exact hname.between (by decide) (by decide)

/-! ### Members as texts -/

/-- A private field: its comment, the annotation of a required one, and the declaration. -/
def fieldBlock (comment : String) (required : Bool) (type name : String) : List (Nat × String) :=
  (docLines comment ++ (if required then ["@NotNull"] else []) ++
    ["private " ++ type ++ " " ++ name ++ ";"]).map (1, ·)

/-- An enum of the given constants and the one for no value. -/
def enumBlock (name : String) (constants : List String) : List (Nat × String) :=
  [(1, "public enum " ++ name ++ " \x7b")] ++ constants.map (fun c => (2, c ++ ",")) ++
    [(2, "UNSPECIFIED"), (1, "\x7d")]

/-- The getter of a case. The tests have private fields and the constants for them. -/
def caseBlock (enum getter : String) (tests : List (String × String)) : List (Nat × String) :=
  [(1, "public " ++ enum ++ " " ++ getter ++ "() \x7b")] ++
    tests.flatMap (fun t =>
      [(2, "if (this." ++ t.1 ++ " != null) \x7b"), (3, "return " ++ enum ++ "." ++ t.2 ++ ";"),
       (2, "\x7d")]) ++
    [(2, "return " ++ enum ++ ".UNSPECIFIED;"), (1, "\x7d")]

/-- The getter of a private field. -/
def getterBlock (type getter name : String) : List (Nat × String) :=
  [(1, "public " ++ type ++ " " ++ getter ++ "() \x7b"), (2, "return this." ++ name ++ ";"),
   (1, "\x7d")]

/-- The setter of a private field. -/
def setterBlock (type setter name : String) : List (Nat × String) :=
  [(1, "public void " ++ setter ++ "(" ++ type ++ " " ++ name ++ ") \x7b"),
   (2, "this." ++ name ++ " = " ++ name ++ ";"), (1, "\x7d")]

/-- The members of a bean: the private fields, then the choices, then the accessors. -/
def Bean.blocks (b : Bean) : List (List (Nat × String)) :=
  b.properties.map (fun p => fieldBlock p.comment p.required p.type.text p.name) ++
    b.caseEnums.flatMap (fun c => [enumBlock c.enumName c.cases,
      caseBlock c.enumName c.getter (c.properties.map fun p => (p.name, p.constant))]) ++
    b.properties.flatMap fun p =>
      [getterBlock p.type.text p.getter p.name, setterBlock p.type.text p.setter p.name]

/-- The scripts of the members. -/
def Bean.members (b : Bean) : List (List Step) :=
  b.properties.map Property.fieldScript ++
    b.caseEnums.flatMap (fun c => [c.enumScript, c.getterScript]) ++
    b.properties.flatMap fun p => [p.getterScript, p.setterScript]

/-! ### Lines of members -/

theorem linesAt_fieldScript (p : Property) : linesAt 1 p.fieldScript =
    linesOf (fieldBlock p.comment p.required p.type.text p.name) := by
  unfold Property.fieldScript
  split <;> simp [linesOf, fieldBlock, List.flatMap_map, *]

theorem CaseEnum.isLevel_enumBody (c : CaseEnum) :
    IsLevel (c.cases.map (fun case => .push (case ++ ",")) ++ [.push CaseEnum.notSet]) := by
  rw [List.map_eq_flatMap]
  exact (IsLevel.flatMap (fun _ => isLevel_push _) _).append (isLevel_push _)

theorem linesAt_enumScript (c : CaseEnum) :
    linesAt 1 c.enumScript = linesOf (enumBlock c.enumName c.cases) := by
  have hcase : ∀ case : String, IsLevel [.push (case ++ ",")] := fun case => isLevel_push _
  rw [CaseEnum.enumScript, c.isLevel_enumBody.linesAt_braces, List.map_eq_flatMap,
    (IsLevel.flatMap hcase c.cases).linesAt_append, linesAt_flatMap hcase]
  simp [linesOf, enumBlock, List.flatMap_map, indented_brace, CaseEnum.notSet]

theorem CaseEnum.isLevel_testScript (c : CaseEnum) (p : Property) : IsLevel (c.testScript p) :=
  (isLevel_push _).braces _

theorem CaseEnum.isLevel_getterBody (c : CaseEnum) : IsLevel (c.properties.flatMap c.testScript ++
    [.push ("return " ++ c.enumName ++ "." ++ CaseEnum.notSet ++ ";")]) :=
  (IsLevel.flatMap c.isLevel_testScript _).append (isLevel_push _)

theorem linesAt_caseGetterScript (c : CaseEnum) : linesAt 1 c.getterScript = linesOf
    (caseBlock c.enumName c.getter (c.properties.map fun p => (p.name, p.constant))) := by
  have htests := IsLevel.flatMap c.isLevel_testScript c.properties
  have htest : ∀ p, linesAt 2 (c.testScript p) =
      indented 2 ("if (this." ++ p.name ++ " != null) \x7b") ++
        (indented 3 ("return " ++ c.enumName ++ "." ++ p.constant ++ ";") ++ indented 2 "\x7d") := by
    intro p
    rw [CaseEnum.testScript, (isLevel_push _).linesAt_braces, indented_brace]
    simp
  have hreturn : "return " ++ c.enumName ++ "." ++ CaseEnum.notSet ++ ";" =
      "return " ++ c.enumName ++ ".UNSPECIFIED;" := by
    simp [← String.toList_inj, CaseEnum.notSet]
  rw [CaseEnum.getterScript, c.isLevel_getterBody.linesAt_braces, htests.linesAt_append,
    linesAt_flatMap c.isLevel_testScript, hreturn]
  simp [linesOf, caseBlock, List.flatMap_map, List.flatMap_assoc, indented_brace, htest]

theorem linesAt_getterScript (p : Property) : linesAt 1 p.getterScript =
    linesOf (getterBlock p.type.text p.getter p.name) := by
  rw [Property.getterScript, (isLevel_push _).linesAt_braces]
  simp [linesOf, getterBlock, indented_brace]

theorem linesAt_setterScript (p : Property) : linesAt 1 p.setterScript =
    linesOf (setterBlock p.type.text p.setter p.name) := by
  rw [Property.setterScript, (isLevel_push _).linesAt_braces]
  simp [linesOf, setterBlock, indented_brace]

theorem map_linesAt_members (b : Bean) : b.members.map (linesAt 1) = b.blocks.map linesOf := by
  simp only [Bean.members, Bean.blocks, List.map_append, List.map_map, List.map_flatMap,
    List.map_cons, List.map_nil, Function.comp_def, linesAt_fieldScript, linesAt_enumScript,
    linesAt_caseGetterScript, linesAt_getterScript, linesAt_setterScript]

theorem Property.isMember_fieldScript (p : Property) : IsMember 1 p.fieldScript where
  level := by
    unfold Property.fieldScript
    split
    · exact ((isLevel_doc _).append (isLevel_push _)).append (isLevel_push _)
    · exact ((isLevel_doc _).append isLevel_nil).append (isLevel_push _)
  line := by
    have hmark : ';' ∈ ("private " ++ p.type.text ++ " " ++ p.name ++ ";").toList := by simp
    have hlast : (1, "private " ++ p.type.text ++ " " ++ p.name ++ ";") ∈
        fieldBlock p.comment p.required p.type.text p.name :=
      List.mem_map_of_mem (List.mem_append_right _ (List.mem_singleton_self _))
    obtain ⟨l, hl, hne⟩ := exists_mem_indented hmark (by decide) 1
    rw [linesAt_fieldScript]
    exact ⟨l, (infix_linesOf hlast).subset hl, hne⟩

theorem isMember_of_mem_members {b : Bean} {script : List Step} (h : script ∈ b.members) :
    IsMember 1 script := by
  rcases List.mem_append.mp h with h | h
  · rcases List.mem_append.mp h with h | h
    · obtain ⟨p, -, rfl⟩ := List.mem_map.mp h
      exact p.isMember_fieldScript
    · obtain ⟨c, -, h⟩ := List.mem_flatMap.mp h
      rcases List.mem_pair.mp h with rfl | rfl
      · exact c.isLevel_enumBody.isMember_braces 1 _
      · exact c.isLevel_getterBody.isMember_braces 1 _
  · obtain ⟨p, -, h⟩ := List.mem_flatMap.mp h
    rcases List.mem_pair.mp h with rfl | rfl
    · exact (isLevel_push _).isMember_braces 1 _
    · exact (isLevel_push _).isMember_braces 1 _

/-! ### The body -/

/-- The sections of a bean are one row. That of the choices is without a text where it is not asked
for, as there are no choices then. -/
theorem Bean.body_eq (b : Bean) : b.body =
    if b.members = [] then "" else "\n" ++ layout 1 (separated b.members) ++ "\n" := by
  obtain ⟨rows, hrows⟩ : ∃ rows, rows = [b.properties.map Property.fieldScript,
      b.caseEnums.flatMap fun c => [c.enumScript, c.getterScript],
      b.properties.flatMap fun p => [p.getterScript, p.setterScript]] := ⟨_, rfl⟩
  have hflatten : rows.flatten = b.members := by
    simp [hrows, Bean.members]
  have hsections : b.sections b.hasChoices =
      (rows.map fun row => layout 1 (separated row)).filter (· ≠ "") := by
    have hempty : layout 1 (separated ([] : List (List Step))) = "" := rfl
    unfold Bean.sections Bean.hasChoices
    by_cases h : b.caseEnums = []
    · simp [h, hrows, hempty, Bean.fieldSection, Bean.accessorSection, List.filter_cons]
    · simp [h, hrows, Bean.fieldSection, Bean.choiceSection, Bean.accessorSection]
  have hmember : ∀ row ∈ rows, ∀ script ∈ row, IsMember 1 script := by
    intro row hrow script hscript
    refine isMember_of_mem_members (b := b) ?_
    rw [← hflatten]
    exact List.mem_flatten_of_mem hrow hscript
  obtain ⟨hjoin, hnil⟩ := intercalate_layout hmember
  rw [← hsections, hflatten] at hjoin hnil
  rw [Bean.body]
  simp only [hnil, hjoin]

/-! ### Choices -/

/-- The lines of a case getter that test the private field of a contract field, and return the
constant of its case if it is set. The constant may still be broken. -/
def CaseEnum.testLines (e : CaseEnum) (f : Contract.Field) (constant : String) : List String :=
  [indentation 2 ++ ("if (this." ++ Naming.memberName f.name ++ " != null) \x7b")] ++
    indented 3 ("return " ++ e.enumName ++ "." ++ constant ++ ";") ++ [indentation 2 ++ "\x7d"]

/-- The lines of the enum of a choice, whatever the names of the cases are. -/
theorem linesOf_enumBlock_ofChoice (c : Contract.Choice) :
    linesOf (enumBlock (CaseEnum.ofChoice c).enumName (CaseEnum.ofChoice c).cases) =
      [indentation 1 ++ ("public enum " ++ (CaseEnum.ofChoice c).enumName ++ " \x7b")] ++
        ((CaseEnum.ofChoice c).cases.flatMap fun case => indented 2 (case ++ ",")) ++
          [indentation 2 ++ "UNSPECIFIED", indentation 1 ++ "\x7d"] := by
  have hsignature : Unbroken ("public enum " ++ (CaseEnum.ofChoice c).enumName ++ " \x7b") :=
    (unbroken_enumName c).between (by decide) (by decide)
  have hnotSet : Unbroken "UNSPECIFIED" := by decide
  simp [linesOf, enumBlock, List.flatMap_map, indented_brace,
    indented_of_unbroken hsignature (by simp), indented_of_unbroken hnotSet (by simp)]

theorem linesOf_caseBlock_ofChoice (c : Contract.Choice) :
    linesOf (caseBlock (CaseEnum.ofChoice c).enumName (CaseEnum.ofChoice c).getter
        ((CaseEnum.ofChoice c).properties.map fun p => (p.name, p.constant))) =
      [indentation 1 ++ ("public " ++ (CaseEnum.ofChoice c).enumName ++ " " ++
        (CaseEnum.ofChoice c).getter ++ "() \x7b")] ++
      (c.fields.flatMap fun f => (CaseEnum.ofChoice c).testLines f (Text.upper f.name)) ++
      [indentation 2 ++ ("return " ++ (CaseEnum.ofChoice c).enumName ++ ".UNSPECIFIED;"),
       indentation 1 ++ "\x7d"] := by
  have hsignature : Unbroken ("public " ++ (CaseEnum.ofChoice c).enumName ++ " " ++
      (CaseEnum.ofChoice c).getter ++ "() \x7b") := by
    simp only [unbroken_append]
    exact ⟨⟨⟨⟨by decide, unbroken_enumName c⟩, by decide⟩, unbroken_caseGetter c⟩, by decide⟩
  have htest : ∀ f : Contract.Field,
      Unbroken ("if (this." ++ Naming.memberName f.name ++ " != null) \x7b") :=
    fun f => (unbroken_memberName f.name).between (by decide) (by decide)
  have hreturn : Unbroken ("return " ++ (CaseEnum.ofChoice c).enumName ++ ".UNSPECIFIED;") :=
    (unbroken_enumName c).between (by decide) (by decide)
  have htests : (CaseEnum.ofChoice c).properties.map (fun p => (p.name, p.constant)) =
      c.fields.map fun f => (Naming.memberName f.name, Text.upper f.name) := by
    simp [CaseEnum.ofChoice, Property.ofField]
  rw [htests]
  simp [linesOf, caseBlock, CaseEnum.testLines, List.flatMap_map, List.flatMap_assoc,
    indented_brace, indented_of_unbroken hsignature (by simp),
    indented_of_unbroken hreturn (by simp), fun f => indented_of_unbroken (htest f) (by simp)]

/-! ### Lines of a bean -/

theorem importLines_bean_ne_nil {b : Bean} (h : b.package = "") :
    importLines b.package b.allImports ≠ [] := by
  have hmem : "java.io.Serializable" ∈ importedPaths b.package b.allImports := by
    rw [mem_importedPaths, h]
    exact ⟨by simp [Bean.allImports], by decide +kernel⟩
  rw [importLines_eq]
  exact List.ne_nil_of_mem (List.mem_map_of_mem hmem)

theorem exists_head_bean_eq (b : Bean) : ∃ c cs, (Artifact.bean b).head.toList = c :: cs ∧
    Text.isBlank c = false := by
  refine (toList_header_eq_or b.package b.allImports).resolve_left fun hnil => ?_
  by_cases h : b.package = ""
  · have hlines := importLines_bean_ne_nil h
    rw [h] at hlines hnil
    rw [header_unnamed] at hnil
    rw [importLines_eq] at hnil hlines
    obtain ⟨path, paths, hpaths⟩ := List.exists_cons_of_ne_nil (mt List.map_eq_nil_iff.mpr hlines)
    obtain ⟨rest, hrest⟩ :=
      Text.exists_toList_joinLines_cons (importLine path) (paths.map importLine)
    rw [hpaths, List.map_cons, hrest] at hnil
    simp [importLine] at hnil
  · obtain ⟨cs, hcs⟩ := exists_toList_header_of_named h b.allImports
    rw [hcs] at hnil
    simp at hnil

/-- The source of a bean ends in a line feed, which is trimmed when it is written. -/
theorem bean_text_eq_append (b : Bean) : b.text = (Artifact.bean b).text ++ "\n" := by
  have hlines : (Text.joinLines [b.body ++ "\x7d", ""]).toList =
      b.body.toList ++ '}' :: ['\n'] := by
    simp [Text.joinLines]
  have htext := Artifact.text_eq_of_source (a := .bean b)
    (congrArg Text.trim (Artifact.bean_text_eq b)) rfl hlines
  obtain ⟨c, cs, hhead, hc⟩ := exists_head_bean_eq b
  have hkept : ((Artifact.bean b).head.toList ++ ['\n', '\n']).dropWhile Text.isBlank =
      (Artifact.bean b).head.toList ++ ['\n', '\n'] := by
    rw [hhead, List.cons_append, List.dropWhile_cons_of_neg (by simp [hc])]
  have hend : ['\n'].rdropWhile Text.isBlank = [] := by decide
  rw [← String.toList_inj, String.toList_append, htext, hkept, hend, Artifact.bean_text_eq]
  simp [Text.joinLines, Artifact.kind, Artifact.comment, Artifact.name]

/-- Behind the line feed there is one more line, an empty one. -/
theorem splitAt_bean_source (b : Bean) :
    splitAt '\n' b.text = splitAt '\n' (Artifact.bean b).text ++ [""] := by
  have hempty : splitAt '\n' "" = [""] := Text.Unbroken.splitAt (by decide)
  rw [bean_text_eq_append, ← hempty, ← Text.splitAt_append_lf, String.append_empty]

theorem splitAt_body (b : Bean) : splitAt '\n' (b.body ++ "\x7d") =
    b.blocks.flatMap (fun block => "" :: linesOf block) ++ ["\x7d"] := by
  have hbrace : splitAt '\n' "\x7d" = ["\x7d"] := Text.Unbroken.splitAt (by decide)
  have hempty : splitAt '\n' "" = [""] := Text.Unbroken.splitAt (by decide)
  have hblocks : b.blocks.flatMap (fun block => "" :: linesOf block) =
      b.members.flatMap fun script => "" :: linesAt 1 script := by
    rw [← List.flatMap_map (g := fun ls => "" :: ls) (f := linesOf), ← map_linesAt_members,
      List.flatMap_map]
  rw [Bean.body_eq, hblocks]
  split
  · rename_i hnil
    rw [hnil, String.empty_append, hbrace, List.flatMap_nil, List.nil_append]
  · rename_i hne
    have hmember : ∀ script ∈ b.members, IsMember 1 script := fun _ => isMember_of_mem_members
    have hlines : linesAt 1 (separated b.members) =
        [""].intercalate (b.members.map (linesAt 1)) :=
      linesAt_separated 1 fun script h => (hmember script h).level
    have hsome : linesAt 1 (separated b.members) ≠ [] := by
      rw [hlines]
      exact linesAt_separated_ne_nil hmember hne
    have hsplit : "\n" ++ layout 1 (separated b.members) ++ "\n" ++ "\x7d" =
        "" ++ "\n" ++ (layout 1 (separated b.members) ++ "\n" ++ "\x7d") := by
      simp [← String.toList_inj]
    obtain ⟨script, scripts, hmembers⟩ := List.exists_cons_of_ne_nil hne
    rw [hsplit, Text.splitAt_append_lf, Text.splitAt_append_lf, splitAt_layout hsome, hlines,
      hbrace, hempty, hmembers, List.map_cons, intercalate_cons, List.flatMap_map]
    simp

/-- The lines of a bean, whatever its names are. -/
theorem splitAt_bean_text (b : Bean) : splitAt '\n' (Artifact.bean b).text =
    splitAt '\n' (Artifact.bean b).head ++ "" :: (docLines b.comment ++
      splitAt '\n' (ClassKind.bean.declaration b.name) ++
        b.blocks.flatMap (fun block => "" :: linesOf block) ++ ["\x7d"]) := by
  have hopening : ClassKind.bean.opening b.comment b.name =
      classComment b.comment ++ ClassKind.bean.declaration b.name := by
    simp [ClassKind.opening, ClassKind.annotations]
  have hempty : splitAt '\n' "" = [""] := Text.Unbroken.splitAt (by decide)
  have hlast := splitAt_bean_source b
  rw [Artifact.bean_text_eq, Text.splitAt_joinLines (List.cons_ne_nil _ _), hopening] at hlast
  refine List.append_cancel_right (hlast.symm.trans ?_)
  simp [hempty, splitAt_classComment, splitAt_body]

theorem linesOf_infix_text {b : Bean} {block : List (Nat × String)} (h : block ∈ b.blocks) :
    linesOf block <:+: splitAt '\n' (Artifact.bean b).text := by
  have hmembers : linesOf block <:+: b.blocks.flatMap fun block => "" :: linesOf block := by
    have hmem : "" :: linesOf block ∈ b.blocks.map fun block => "" :: linesOf block :=
      List.mem_map_of_mem h
    rw [List.flatMap_def]
    exact (List.suffix_cons _ _).isInfix.trans (List.infix_of_mem_flatten hmem)
  rw [splitAt_bean_text]
  refine hmembers.trans ⟨splitAt '\n' (Artifact.bean b).head ++ "" :: (docLines b.comment ++
    splitAt '\n' (ClassKind.bean.declaration b.name)), ["\x7d"], ?_⟩
  simp

end RestScaffold.Target
