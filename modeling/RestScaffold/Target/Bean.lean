import RestScaffold.Target.Member
import RestScaffold.Target.Skeleton

/-! # Beans

The class that is generated for a message: a private field with getter and setter for each
field, and an enum with a getter for each choice.

* `Bean.ofMessage`: the bean of a message;
* `Bean.sections`: the sections of its members;
* `Bean.text`: its source. -/

namespace RestScaffold.Target

/-- The class of a message. -/
structure Bean where
  package : String
  name : String
  comment : String
  properties : List Property
  caseEnums : List CaseEnum
  /-- The classes that the types of the properties need, each once. -/
  imports : List String

/-- The bean of a message. -/
def Bean.ofMessage (m : Contract.Message) : Bean where
  package := m.package
  name := m.name
  comment := m.comment
  properties := m.fields.map .ofField
  caseEnums := m.choices.map .ofChoice
  imports := (m.fields.flatMap fun f => (JavaType.ofField f).imports m.package).eraseDups

/-! ### Members -/

/-- The declaration of the private field. -/
def Property.fieldScript (p : Property) : List Step :=
  [.doc p.comment] ++ (if p.required then [.push "@NotNull"] else []) ++
    [.push ("private " ++ p.type.text ++ " " ++ p.name ++ ";")]

/-- The getter. -/
def Property.getterScript (p : Property) : List Step :=
  [.push ("public " ++ p.type.text ++ " " ++ p.getter ++ "() \x7b")] ++
    deeper [.push ("return this." ++ p.name ++ ";")] ++ [.push "\x7d"]

/-- The setter. -/
def Property.setterScript (p : Property) : List Step :=
  [.push ("public void " ++ p.setter ++ "(" ++ p.type.text ++ " " ++ p.name ++ ") \x7b")] ++
    deeper [.push ("this." ++ p.name ++ " = " ++ p.name ++ ";")] ++ [.push "\x7d"]

/-- The enum of the cases. -/
def CaseEnum.enumScript (c : CaseEnum) : List Step :=
  [.push ("public enum " ++ c.enumName ++ " \x7b")] ++
    deeper (c.cases.map (fun case => .push (case ++ ",")) ++ [.push CaseEnum.notSet]) ++
    [.push "\x7d"]

/-- Returns the case of a property that is set. -/
def CaseEnum.testScript (c : CaseEnum) (p : Property) : List Step :=
  [.push ("if (this." ++ p.name ++ " != null) \x7b")] ++
    deeper [.push ("return " ++ c.enumName ++ "." ++ p.constant ++ ";")] ++ [.push "\x7d"]

/-- The getter of the case: the first property that is set decides. -/
def CaseEnum.getterScript (c : CaseEnum) : List Step :=
  [.push ("public " ++ c.enumName ++ " " ++ c.getter ++ "() \x7b")] ++
    deeper (c.properties.flatMap c.testScript ++
      [.push ("return " ++ c.enumName ++ "." ++ CaseEnum.notSet ++ ";")]) ++
    [.push "\x7d"]

/-- The section of the private fields. -/
def Bean.fieldSection (b : Bean) : String :=
  layout 1 (separated (b.properties.map Property.fieldScript))

/-- The section of the choices. -/
def Bean.choiceSection (b : Bean) : String :=
  layout 1 (separated (b.caseEnums.flatMap fun c => [c.enumScript, c.getterScript]))

/-- The section of the accessors. -/
def Bean.accessorSection (b : Bean) : String :=
  layout 1 (separated (b.properties.flatMap fun p => [p.getterScript, p.setterScript]))

/-- The sections that have a text, with that of the choices only where it is asked for. -/
def Bean.sections (b : Bean) (withChoices : Bool) : List String :=
  ([b.fieldSection] ++ (if withChoices then [b.choiceSection] else []) ++
    [b.accessorSection]).filter (· ≠ "")

/-- Does the bean have choices? Without any, their section is not asked for. -/
def Bean.hasChoices (b : Bean) : Bool :=
  b.caseEnums ≠ []

/-! ### Source -/

/-- The source of a bean around its members. -/
def Bean.skeleton : String :=
  Text.joinLines
    ["<header>",
     "",
     "<comment>public class <name> implements Serializable \x7b",
     "<body>\x7d",
     ""]

/-- What stands between the braces: the sections with an empty line in front of each, or nothing. -/
def Bean.body (b : Bean) : String :=
  let sections := b.sections b.hasChoices
  if sections = [] then "" else "\n" ++ "\n\n".intercalate sections ++ "\n"

/-- The imports of the source: those that every bean has, then those of the properties. -/
def Bean.allImports (b : Bean) : List String :=
  ["java.io.Serializable"] ++
    (if b.properties.any (·.required) then ["jakarta.validation.constraints.NotNull"] else []) ++
    b.imports

/-- The source of a bean. -/
def Bean.text (b : Bean) : String :=
  fill Bean.skeleton
    [("<header>", header b.package b.allImports), ("<comment>", classComment b.comment),
     ("<name>", b.name), ("<body>", b.body)]

end RestScaffold.Target
