import Photoplot.Scalar
import Photoplot.Decimal.Shortest
import Photoplot.Scalar.Length

/-!
# Doubles as Scalars

The scalar that programs run on. Arithmetic and comparisons are those of double precision;
reading a decimal and divisibility are exact up to one rounding, and the length of a vector is
`Length.hypot`. The text of a double is its shortest decimal.
-/

namespace Photoplot

instance : Scalar Float where
  natCast := Float.ofNat
  decidableLT := inferInstance
  decidableLE := inferInstance
  abs := Float.abs
  round := Float.round
  toNat x := x.toUInt64.toNat
  isMultipleOf := Binary.isMultipleOf
  pi := 3.141592653589793
  largest := 1.7976931348623157e308
  isLimited := true
  sin := Float.sin
  cos := Float.cos
  asin := Float.asin
  atan2 := Float.atan2
  hypot := Length.hypot

instance : Legible Float where
  text := Shortest.text
  legible _ _ := Shortest.mem_text

end Photoplot
