/-! # Blanks and trimming

* `isBlank`: membership in Unicode's `White_Space` property;
* `trimEnds p`: a list without the `p`-characters at its two ends;
* `trim`, `trimMarks`: the two cuts that the generator makes on text, at blanks and at the
  marks that open and close a comment. -/

namespace RestScaffold.Text

/-- The code points with the `White_Space` property. -/
def isBlank (c : Char) : Bool :=
  let n := c.toNat
  (9 ≤ n && n ≤ 13) || n == 0x20 || n == 0x85 || n == 0xA0 || n == 0x1680 ||
    (0x2000 ≤ n && n ≤ 0x200A) || n == 0x2028 || n == 0x2029 || n == 0x202F ||
    n == 0x205F || n == 0x3000

/-- Drops the longest run of `p`-characters from the front and from the back. -/
def trimEnds (p : Char → Bool) (cs : List Char) : List Char :=
  ((cs.dropWhile p).reverse.dropWhile p).reverse

/-- Text without the blanks around it. -/
def trim (s : String) : String :=
  String.ofList (trimEnds isBlank s.toList)

/-- Text of a comment: first the slashes and stars around it go, then the blanks. -/
def trimMarks (s : String) : String :=
  String.ofList (trimEnds isBlank (trimEnds (fun c => c == '/' || c == '*') s.toList))

end RestScaffold.Text
