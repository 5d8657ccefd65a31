import Jasm.Text.Case

/-!
# Blanks and keywords

Keywords of the command line and of unit descriptions are recognised whatever their case and
with blanks around them. Both notions are those of Unicode, so a no-break space is a blank and a
capital dotted I is the capital of `i`.
-/

namespace Jasm.Text

/-- The white space characters of Unicode. -/
def isBlank (c : Char) : Bool :=
  let n := c.toNat
  (0x09 ≤ n && n ≤ 0x0d) || n = 0x20 || n = 0x85 || n = 0xa0 || n = 0x1680 ||
    (0x2000 ≤ n && n ≤ 0x200a) || n = 0x2028 || n = 0x2029 || n = 0x202f || n = 0x205f ||
    n = 0x3000

/-- Drops the blanks at both ends. -/
def trimChars (cs : List Char) : List Char :=
  ((cs.dropWhile isBlank).reverse.dropWhile isBlank).reverse

def trim (s : String) : String := String.ofList (trimChars s.toList)

/-- The form in which keywords are compared: no blanks around, no capitals. -/
def keyword (s : String) : String :=
  String.ofList ((trimChars s.toList).map lowerChar)

end Jasm.Text
