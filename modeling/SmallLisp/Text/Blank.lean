/-!
# Blank text

Which characters are blank, and which lines are.  The class is the Unicode property
`White_Space`, twenty-five characters in all; it is wider than the four blanks that separate
tokens, and a line is blank when it holds nothing else.
-/

namespace SmallLisp.Text

/-- The Unicode property `White_Space`. -/
def isWhiteSpace (c : Char) : Bool :=
  let n := c.toNat
  (0x09 ≤ n && n ≤ 0x0D) || n == 0x20 || n == 0x85 || n == 0xA0 || n == 0x1680 ||
    (0x2000 ≤ n && n ≤ 0x200A) || n == 0x2028 || n == 0x2029 || n == 0x202F || n == 0x205F ||
    n == 0x3000

/-- A line is blank when all its characters are white space. -/
def isBlank (line : String) : Bool :=
  line.toList.all isWhiteSpace

end SmallLisp.Text
