import RestScaffold.Text.LetterCase

/-! # Names

Names of the contract are written with underscores or in mixed case; names of generated members
and types are camel case, made of the ASCII letters and digits in them.

* `words`: the words of an identifier, cut at foreign characters and at changes of case;
* `memberName`, `typeName`: camel case with a small or a capital first letter;
* `qualify`, `packagePath`: dotted names and the directories they stand for. -/

namespace RestScaffold.Naming

/-! ### Words -/

/-- The case of the last letter since the cut; `fresh` when no letter was met. -/
inductive Stretch where
  | fresh
  | lower
  | upper
deriving DecidableEq

/-- The stretch after the character `c`; a digit leaves it as it is. -/
def Stretch.next (before : Stretch) (c : Char) : Stretch :=
  if c.isLower then .lower else if c.isUpper then .upper else before

/-- Cuts a run of letters and digits into words, `word` being the start of the current one.
A word ends where a lower stretch meets a capital, and before the last capital of a stretch of
capitals that a small letter follows. -/
def cutWords (stretch : Stretch) (word : List Char) : List Char → List (List Char)
  | [] => if word = [] then [] else [word]
  | [c] => [word ++ [c]]
  | c :: d :: cs =>
    if stretch.next c = .lower ∧ d.isUpper then
      (word ++ [c]) :: cutWords .fresh [] (d :: cs)
    else if stretch = .upper ∧ c.isUpper ∧ d.isLower then
      word :: cutWords .fresh [c] (d :: cs)
    else
      cutWords (stretch.next c) (word ++ [c]) (d :: cs)

/-- The words of a text; characters other than ASCII letters and digits only separate. -/
def words (s : String) : List (List Char) :=
  (s.toList.splitOnP fun c => !c.isAlphanum).flatMap (cutWords .fresh [])

/-! ### Camel case -/

/-- A word in small letters. -/
def small (word : List Char) : List Char :=
  word.map Char.toLower

/-- A word in small letters with a capital in front. -/
def capitalized : List Char → List Char
  | [] => []
  | c :: cs => c.toUpper :: small cs

/-- Camel case with a small first word: `user_id` becomes `userId`. -/
def memberName (s : String) : String :=
  match words s with
  | [] => ""
  | w :: ws => String.ofList (small w ++ ws.flatMap capitalized)

/-- Camel case with a capital first word: `user_id` becomes `UserId`. -/
def typeName (s : String) : String :=
  String.ofList ((words s).flatMap capitalized)

/-! ### Qualified names -/

/-- `scope.name`, or the bare name when the scope is empty. -/
def qualify (scope name : String) : String :=
  if scope = "" then name else scope ++ "." ++ name

/-- The directory of a package: `com.example` becomes `com/example`. -/
def packagePath (package : String) : String :=
  String.ofList (package.toList.map fun c => if c = '.' then '/' else c)

/-- A part of a package name: a letter or an underscore, then letters, digits and underscores. -/
def isPackageSegment : List Char → Bool
  | [] => false
  | c :: cs => (c.isAlpha || c == '_') && cs.all fun d => d.isAlphanum || d == '_'

/-- One or more segments with dots between them. -/
def isPackageName (s : String) : Bool :=
  (s.toList.splitOn '.').all isPackageSegment

theorem qualify_empty (name : String) : qualify "" name = name := rfl

theorem qualify_of_ne_empty {scope : String} (h : scope ≠ "") (name : String) :
    qualify scope name = scope ++ "." ++ name := by
  simp [qualify, h]

end RestScaffold.Naming
