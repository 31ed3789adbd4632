/-!
# Blank Characters

The characters between tokens are those with the Unicode property `White_Space`: the five
ASCII control characters from tab to carriage return, the space, and nineteen others.
-/

namespace Photoplot

/-- Whether a character has the property `White_Space`. -/
def isBlank (c : Char) : Bool :=
  let n := c.toNat
  (0x09 ≤ n && n ≤ 0x0D) || n == 0x20 || n == 0x85 || n == 0xA0 || n == 0x1680 ||
    (0x2000 ≤ n && n ≤ 0x200A) || n == 0x2028 || n == 0x2029 || n == 0x202F || n == 0x205F ||
    n == 0x3000

/-- The rest of a text after its leading blanks. -/
def skipBlanks (text : List Char) : List Char := text.dropWhile isBlank

end Photoplot
