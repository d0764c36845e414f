import RestScaffold.Target.Literal
import RestScaffold.Target.Skeleton

/-! # Enum classes

The enum that is generated for an enumeration: its constants carry a code and a description.

* `EnumClass.ofEnumeration`: the enum of an enumeration;
* `constantLine`: the line that declares a constant;
* `EnumClass.text`: its source. -/

namespace RestScaffold.Target

/-- A constant with the values that it carries. -/
structure EnumConstant where
  name : String
  /-- The place among the enumeration's values. -/
  code : Nat
  /-- The comment, or the name where there is none. -/
  description : String
  comment : String
deriving DecidableEq, Repr

/-- The constant of a value. -/
def EnumConstant.ofValue (v : Contract.EnumValue) : EnumConstant where
  name := v.name
  code := v.index
  description := if v.comment = "" then v.name else v.comment
  comment := v.comment

/-- The enum of an enumeration. -/
structure EnumClass where
  package : String
  name : String
  comment : String
  constants : List EnumConstant

/-- The enum class of an enumeration. -/
def EnumClass.ofEnumeration (e : Contract.Enumeration) : EnumClass where
  package := e.package
  name := e.name
  comment := e.comment
  constants := e.values.map .ofValue

/-! ### Constants -/

/-- The declaration of a constant, with the mark that follows it. -/
def constantLine (c : EnumConstant) (terminator : String) : String :=
  c.name ++ "(" ++ toString c.code ++ ", " ++ quote c.description ++ ")" ++ terminator

/-- The constants in order: commas between them, a semicolon after the last. -/
def constantScripts : List EnumConstant → List Step
  | [] => []
  | [c] => [.doc c.comment, .push (constantLine c ";")]
  | c :: d :: cs => [.doc c.comment, .push (constantLine c ",")] ++ constantScripts (d :: cs)

/-- The constants of an enum; without any, the semicolon stands alone. -/
def EnumClass.constantScript (e : EnumClass) : List Step :=
  if e.constants = [] then [.push ";"] else constantScripts e.constants

/-! ### Source -/

/-- The source of an enum around its constants. -/
def EnumClass.skeleton : String :=
  Text.joinLines
    ["<header>",
     "",
     "<comment>public enum <name> \x7b",
     "",
     "<values>",
     "",
     "    private final int code;",
     "    private final String desc;",
     "",
     "    <name>(int code, String desc) \x7b",
     "        this.code = code;",
     "        this.desc = desc;",
     "    \x7d",
     "",
     "    public int getCode() \x7b",
     "        return this.code;",
     "    \x7d",
     "",
     "    public String getDesc() \x7b",
     "        return this.desc;",
     "    \x7d",
     "",
     "    public static <name> fromCode(int code) \x7b",
     "        for (<name> value : values()) \x7b",
     "            if (value.code == code) \x7b",
     "                return value;",
     "            \x7d",
     "        \x7d",
     "        return null;",
     "    \x7d",
     "\x7d",
     ""]

/-- The section of the constants. -/
def EnumClass.values (e : EnumClass) : String :=
  layout 1 e.constantScript

/-- The source of an enum. -/
def EnumClass.text (e : EnumClass) : String :=
  fill EnumClass.skeleton
    [("<header>", header e.package []), ("<comment>", classComment e.comment),
     ("<values>", e.values), ("<name>", e.name)]

end RestScaffold.Target
