/-! # Lines and separators

* `splitAt sep`: the pieces between the occurrences of a separator, empty ones included;
* `lines`: the lines of a text, where a final line feed opens no further line;
* `joinLines`: the text whose lines are given. -/

namespace RestScaffold.Text

/-- The pieces of `s` between the occurrences of `sep`; one more than there are occurrences. -/
def splitAt (sep : Char) (s : String) : List String :=
  (s.toList.splitOn sep).map String.ofList

/-- The lines of `s`: the pieces between line feeds, without the empty one after the last. -/
def lines (s : String) : List String :=
  let pieces := splitAt '\n' s
  if pieces.getLast? = some "" then pieces.dropLast else pieces

/-- The given lines with a line feed between each two. -/
def joinLines (ls : List String) : String :=
  "\n".intercalate ls

/-- The text before the first `sep` and the text after it, if there is one. -/
def cutAtFirst (sep : Char) (s : String) : Option (String × String) :=
  match s.toList.span (· != sep) with
  | (_, []) => none
  | (before, _ :: after) => some (String.ofList before, String.ofList after)

/-- The text before the last `sep` and the text after it, if there is one. -/
def cutAtLast (sep : Char) (s : String) : Option (String × String) :=
  match s.toList.reverse.span (· != sep) with
  | (_, []) => none
  | (after, _ :: before) => some (String.ofList before.reverse, String.ofList after.reverse)

end RestScaffold.Text
