import RestScaffold.Fault
import RestScaffold.Text.Blank

/-! # Path templates

An HTTP path in which groups such as `{name}` or `{name=pattern}` bind variables. A group
opens at a brace whose next brace closes it; every other brace is plain text.

* `segments`: a path as plain characters and groups;
* `Variable.ofGroup`: name and pattern of a group;
* `variablesOf`: the variables in order of first appearance, each with its last pattern;
* `mapping`: the path with every group cut down to its name. -/

namespace RestScaffold.PathTemplate

/-! ### Groups -/

/-- A plain character, or the text between two braces that belong together. -/
inductive Segment where
  | plain (c : Char)
  | group (content : List Char)
deriving DecidableEq

/-- Neither of the two braces. -/
def notBrace (c : Char) : Bool :=
  c != '{' && c != '}'

/-- Reads a path from left to right. -/
def segments : List Char → List Segment
  | [] => []
  | c :: cs =>
    if c = '{' then
      match _h : cs.dropWhile notBrace with
      | '}' :: rest => .group (cs.takeWhile notBrace) :: segments rest
      | _ => .plain c :: segments cs
    else .plain c :: segments cs
termination_by cs => cs.length
decreasing_by
  · have := (List.dropWhile_sublist notBrace (l := cs)).length_le
    simp_all
    omega
  all_goals simp

/-! ### Variables -/

/-- A variable of a path, with the pattern that its group gives it. -/
structure Variable where
  name : String
  pattern : Option String := none
deriving DecidableEq, Repr

/-- The characters of a variable's name: ASCII letters and digits, the letters that fold to one
(long s and the Kelvin sign), dots, underscores and blanks. -/
def isNameChar (c : Char) : Bool :=
  c.isAlphanum || c == '.' || c == '_' || c == '\u017F' || c == '\u212A' || Text.isBlank c

/-- The name at the front of a group, without the blanks around it. -/
def groupName (content : List Char) : String :=
  String.ofList (Text.trimEnds Text.isBlank (content.takeWhile isNameChar))

/-- What follows the name in a group, after the equals sign if there is one. -/
def groupPattern (content : List Char) : List Char :=
  match content.dropWhile isNameChar with
  | '=' :: pattern => pattern
  | pattern => pattern

/-- The variable of a group; an empty pattern is none. -/
def Variable.ofGroup (content : List Char) : Variable :=
  let pattern := groupPattern content
  ⟨groupName content, if pattern = [] then none else some (String.ofList pattern)⟩

/-- Adds a variable; one that is known keeps its place and takes the new pattern. -/
def addVariable (vars : List Variable) (v : Variable) : List Variable :=
  if vars.any (·.name = v.name) then
    vars.map fun w => if w.name = v.name then v else w
  else vars ++ [v]

/-- The contents of the groups of a path. -/
def groups (path : String) : List (List Char) :=
  (segments path.toList).filterMap fun
    | .plain _ => none
    | .group content => some content

/-- The variables of a path, in order of first appearance. A path must not end with a slash. -/
def variablesOf (path : String) : Except Fault (List Variable) :=
  if path.toList.getLast? = some '/' then .error (.trailingSlash path)
  else .ok (((groups path).map Variable.ofGroup).foldl addVariable [])

/-! ### Mapping -/

/-- The text of a segment in a mapping: a group is its name in braces. -/
def Segment.mapping : Segment → List Char
  | .plain c => [c]
  | .group content => '{' :: (groupName content).toList ++ ['}']

/-- The path that a controller is mapped to: patterns are dropped. -/
def mapping (path : String) : String :=
  String.ofList ((segments path.toList).flatMap Segment.mapping)

end RestScaffold.PathTemplate
