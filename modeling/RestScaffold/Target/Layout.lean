import RestScaffold.Text.Blank
import RestScaffold.Text.Lines

/-! # Layout

Text is laid out line by line, at a depth that steps change.

* `indented`: the lines that a pushed text contributes at a depth;
* `docLines`: the lines of a documentation comment, which its text cannot close;
* `Page`, `Page.run`: the lines so far and the depth in force, and a script of steps on them;
* `layout`: the text of a script that starts on an empty page;
* `separated`: scripts one after the other with an empty line between each two. -/

namespace RestScaffold.Target

/-! ### Lines -/

/-- The blanks in front of a line, four for each level. -/
def indentation (depth : Nat) : String :=
  String.ofList (List.replicate (4 * depth) ' ')

/-- A line at a depth; an empty line has no blanks. -/
def indentLine (depth : Nat) (line : String) : String :=
  if line = "" then "" else indentation depth ++ line

/-- The lines of a text at a depth. -/
def indented (depth : Nat) (text : String) : List String :=
  (Text.splitAt '\n' text).map (indentLine depth)

/-- Writes the mark that closes a comment in a way that closes none. -/
def escapeCloser : List Char → List Char
  | [] => []
  | '*' :: '/' :: cs => '*' :: '&' :: '#' :: '4' :: '7' :: ';' :: escapeCloser cs
  | c :: cs => c :: escapeCloser cs

/-- One line of a comment, behind its star. -/
def docLine (line : String) : String :=
  let shown := String.ofList (escapeCloser (Text.trim line).toList)
  if shown = "" then " *" else " * " ++ shown

/-- A documentation comment: nothing for an empty text, else its lines between two marks. -/
def docLines (comment : String) : List String :=
  if comment = "" then []
  else ["/**"] ++ (Text.lines comment).map docLine ++ [" */"]

/-! ### Pages -/

/-- One step of a script. -/
inductive Step where
  /-- Adds the lines of a text. -/
  | push (text : String)
  /-- Adds a documentation comment. -/
  | doc (comment : String)
  /-- Adds an empty line. -/
  | blank
  | indent
  | dedent
deriving DecidableEq, Repr

/-- The lines so far and the depth in force. -/
structure Page where
  lines : List String := []
  depth : Nat := 0
deriving DecidableEq, Repr

/-- Adds the lines of a text at the depth in force. -/
def Page.push (p : Page) (text : String) : Page :=
  { p with lines := p.lines ++ indented p.depth text }

/-- The page after one step. The depth never falls below zero. -/
def Page.step (p : Page) : Step → Page
  | .push text => p.push text
  | .doc comment => (docLines comment).foldl Page.push p
  | .blank => { p with lines := p.lines ++ [""] }
  | .indent => { p with depth := p.depth + 1 }
  | .dedent => { p with depth := p.depth - 1 }

/-- The page after a script. -/
def Page.run (p : Page) (script : List Step) : Page :=
  script.foldl Page.step p

/-- The lines of a page as one text. -/
def Page.text (p : Page) : String :=
  Text.joinLines p.lines

/-- The page on which the given texts are pushed in order. -/
def Page.ofTexts (texts : List String) : Page :=
  texts.foldl Page.push {}

/-- The text of a script that starts at a depth. -/
def layout (depth : Nat) (script : List Step) : String :=
  (Page.run ⟨[], depth⟩ script).text

/-- The scripts in order, with an empty line between each two. -/
def separated (scripts : List (List Step)) : List Step :=
  (scripts.intersperse [.blank]).flatten

/-- The lines of `body` one level deeper. -/
def deeper (body : List Step) : List Step :=
  [.indent] ++ body ++ [.dedent]

end RestScaffold.Target
