/-!
# Coordinate Formats

A format says how many digits of a packed coordinate stand before and after the implied
decimal point, which zeros are left out, and whether a coordinate is a position or a step from
the current point.

## Main definitions

* `CoordinateFormat`: the format of all four axes.
* `CoordinateFormat.axisFormat`: the digit counts of one axis.
* `CoordinateFormat.text`: the format as a command word.
* `CoordinateError`: why a coordinate cannot be packed or unpacked.
-/

namespace Photoplot

/-- Which zeros a packed coordinate leaves out. -/
inductive ZeroOmission where
  /-- Digits are aligned to the right, leading zeros are implied. -/
  | leading
  /-- Digits are aligned to the left, trailing zeros are implied. -/
  | trailing
deriving DecidableEq, Repr

/-- What a coordinate is measured from. -/
inductive CoordinateMode where
  /-- From the origin. -/
  | absolute
  /-- From the current point. -/
  | incremental
deriving DecidableEq, Repr

/-- The number of digits before and after the implied decimal point. -/
structure AxisFormat where
  integerDigits : Nat
  decimalDigits : Nat
deriving DecidableEq, Repr

/-- All digits of a coordinate. -/
def AxisFormat.totalDigits (f : AxisFormat) : Nat := f.integerDigits + f.decimalDigits

/-- The end point has the axes `x` and `y`, the arc centre offset `i` and `j`. -/
inductive Axis where
  | x
  | y
  | i
  | j
deriving DecidableEq, Repr

/-- How coordinates are written. -/
structure CoordinateFormat where
  zeros : ZeroOmission
  mode : CoordinateMode
  x : AxisFormat
  y : AxisFormat
deriving DecidableEq, Repr

namespace CoordinateFormat

/-- Offsets share the digit counts of the axis that they are parallel to. -/
def axisFormat (f : CoordinateFormat) : Axis → AxisFormat
  | .x | .i => f.x
  | .y | .j => f.y

/-- The format as a command word, such as `FSLAX24Y24`. -/
def text (f : CoordinateFormat) : String :=
  let zeros := match f.zeros with
    | .leading => "L"
    | .trailing => "T"
  let mode := match f.mode with
    | .absolute => "A"
    | .incremental => "I"
  let digits (a : AxisFormat) := toString a.integerDigits ++ toString a.decimalDigits
  "FS" ++ zeros ++ mode ++ "X" ++ digits f.x ++ "Y" ++ digits f.y

end CoordinateFormat

/-- Why a coordinate cannot be packed or unpacked. -/
inductive CoordinateError where
  /-- No digit follows the sign. -/
  | tooShort (raw : String)
  /-- More digits than the format has room for. -/
  | tooLong (raw : String) (maxDigits : Nat)
  /-- Something other than an ASCII digit follows the sign. -/
  | invalid (raw : String)
deriving DecidableEq, Repr

/-- The message shown for a coordinate error. -/
def CoordinateError.message : CoordinateError → String
  | .tooShort raw => s!"packed coordinate '{raw}' contains no digits"
  | .tooLong raw maxDigits =>
    s!"coordinate '{raw}' does not fit into the {maxDigits} digits allowed by the format"
  | .invalid raw =>
    s!"packed coordinate '{raw}' contains characters other than an optional sign and digits"

end Photoplot
