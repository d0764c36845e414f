import RestScaffold.Text.CaseTable

/-! # Letter case

Full case mapping, character by character: one letter may become several.

* `upperChar`, `lowerChar`: the mapping of one character;
* `upper`: a text in upper case;
* `upperFirst`, `lowerFirst`: a text with the case of its first character changed. -/

namespace RestScaffold.Text

/-- The characters that `c` becomes, read off a table of runs and one of expansions. -/
def mapCase (runs : List CaseRun) (expansions : List (Nat × List Nat)) (c : Char) : List Char :=
  match expansions.lookup c.toNat with
  | some targets => targets.map Char.ofNat
  | none =>
    match runs.find? (·.covers c.toNat) with
    | some run => [Char.ofNat (c.toNat + run.shift).toNat]
    | none => [c]

/-- Upper case of one character; the tables hold the letters beyond ASCII. -/
def upperChar (c : Char) : List Char :=
  if c.toNat < 128 then [c.toUpper] else mapCase upperRuns upperExpansions c

/-- Lower case of one character; the tables hold the letters beyond ASCII. -/
def lowerChar (c : Char) : List Char :=
  if c.toNat < 128 then [c.toLower] else mapCase lowerRuns lowerExpansions c

/-- The text in upper case. -/
def upper (s : String) : String :=
  String.ofList (s.toList.flatMap upperChar)

/-- Changes the first character and keeps the rest. -/
def onFirst (f : Char → List Char) : List Char → List Char
  | [] => []
  | c :: cs => f c ++ cs

/-- The text with its first character in upper case. -/
def upperFirst (s : String) : String :=
  String.ofList (onFirst upperChar s.toList)

/-- The text with its first character in lower case. -/
def lowerFirst (s : String) : String :=
  String.ofList (onFirst lowerChar s.toList)

theorem upperChar_of_ascii {c : Char} (h : c.toNat < 128) : upperChar c = [c.toUpper] := by
  simp [upperChar, h]

theorem lowerChar_of_ascii {c : Char} (h : c.toNat < 128) : lowerChar c = [c.toLower] := by
  simp [lowerChar, h]

end RestScaffold.Text
