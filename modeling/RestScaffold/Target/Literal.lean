/-! # String literals

`quote` writes a text as a string literal: quotes, backslashes, line breaks and tabs are escaped,
everything else stands for itself. -/

namespace RestScaffold.Target

/-- One character as it stands between the quotes. -/
def escapeChar : Char → List Char
  | '"' => ['\\', '"']
  | '\\' => ['\\', '\\']
  | '\n' => ['\\', 'n']
  | '\r' => ['\\', 'r']
  | '\t' => ['\\', 't']
  | c => [c]

/-- The literal of a text. -/
def quote (s : String) : String :=
  String.ofList ('"' :: s.toList.flatMap escapeChar ++ ['"'])

end RestScaffold.Target
