import Photoplot.Coordinate
import Photoplot.Decimal.Binary
import Photoplot.Scalar

/-!
# Packed Coordinates

Packing writes a number with the decimal places of its axis, drops the point and leaves out
the zeros that the format omits. Unpacking reads the digits back and puts the point where the
format implies it. Both are about decimals: a double is rounded to its places before it is
packed, and an unpacked decimal becomes a scalar by one rounding.

## Main definitions

* `CoordinateFormat.packDecimal`, `CoordinateFormat.pack`: the packed text of a decimal and of
  a double.
* `CoordinateFormat.unpackDecimal`, `CoordinateFormat.unpack`: the decimal that a packed text
  stands for, and that decimal as a scalar.
-/

namespace Photoplot

/-- The scalar of a decimal. A negative zero is the negation of zero. -/
def Decimal.toScalar {α : Type} [Scalar α] (d : Decimal) : α :=
  let magnitude : α := OfScientific.ofScientific d.coefficient true d.places
  if d.negative then -magnitude else magnitude

namespace CoordinateFormat

/-! ### Packing -/

/-- Leaves out the zeros that the format implies. -/
def omitZeros : ZeroOmission → List Char → List Char
  | .leading, digits => digits.dropWhile (· == '0')
  | .trailing, digits => (digits.reverse.dropWhile (· == '0')).reverse

/-- Packs a magnitude that is written as `whole` digits, and `fraction` digits after the
point. The digits before the point are brought to the width of the axis. Nothing left stands
for zero, which has no sign. -/
def packWritten (f : CoordinateFormat) (axis : Axis) (negative : Bool)
    (written : String) (whole fraction : List Char) : Except CoordinateError String :=
  let width := (f.axisFormat axis).integerDigits
  let whole := whole.dropWhile (· == '0')
  if width < whole.length then .error (.tooLong written width)
  else
    let padded := List.replicate (width - whole.length) '0' ++ whole ++ fraction
    match omitZeros f.zeros padded with
    | [] => .ok "0"
    | digits => .ok (String.ofList (if negative then '-' :: digits else digits))

/-- Packs a decimal, which must have the places of its axis. -/
def packDecimal (f : CoordinateFormat) (axis : Axis) (d : Decimal) :
    Except CoordinateError String :=
  let (whole, fraction) := Decimal.split d.places d.coefficient
  f.packWritten axis d.negative (Decimal.fixedText d.places d.coefficient) whole fraction

/-- Packs a double, rounded to the places of its axis, ties to even. An infinity and what is
not a number are written as words and take part in the padding like digits. -/
def pack (f : CoordinateFormat) (axis : Axis) (value : Float) : Except CoordinateError String :=
  match Binary.ofFloat value with
  | .finite negative significand exponent =>
    let places := (f.axisFormat axis).decimalDigits
    f.packDecimal axis ⟨negative, Binary.roundedUnits places significand exponent, places⟩
  | .infinite negative => f.packWritten axis negative "inf" "inf".toList []
  | .notANumber => f.packWritten axis false "NaN" "NaN".toList []

/-! ### Unpacking -/

/-- Takes an optional sign off the front. -/
def splitSign : List Char → Bool × List Char
  | '-' :: digits => (true, digits)
  | '+' :: digits => (false, digits)
  | digits => (false, digits)

/-- Puts back the zeros that the format implies, up to `total` digits. -/
def restoreZeros (zeros : ZeroOmission) (total : Nat) (digits : List Char) : List Char :=
  let implied := List.replicate (total - digits.length) '0'
  match zeros with
  | .leading => implied ++ digits
  | .trailing => digits ++ implied

/-- The positional text of digits of which the first `width` stand before the point. There is no
point when no digits come after it. -/
def pointed (width : Nat) (digits : List Char) : List Char :=
  let (whole, fraction) := digits.splitAt width
  if fraction.isEmpty then whole else whole ++ '.' :: fraction

/-- The decimal that a packed coordinate stands for: an optional sign and at least one ASCII
digit, but no more than the axis has. The digits are brought to the width of the axis, the point is
put in, and what is then written is read as a number. -/
def unpackDecimal (f : CoordinateFormat) (axis : Axis) (raw : String) :
    Except CoordinateError Decimal :=
  let (negative, digits) := splitSign raw.toList
  let format := f.axisFormat axis
  if digits.isEmpty then .error (.tooShort raw)
  else if !digits.all Char.isDigit then .error (.invalid raw)
  else if format.totalDigits < digits.length then .error (.tooLong raw format.totalDigits)
  else
    match Decimal.ofPositional
      (pointed format.integerDigits (restoreZeros f.zeros format.totalDigits digits)) with
    | none => .error (.invalid raw)
    | some magnitude => .ok { magnitude with negative }

/-- The scalar that a packed coordinate stands for. -/
def unpack {α : Type} [Scalar α] (f : CoordinateFormat) (axis : Axis) (raw : String) :
    Except CoordinateError α :=
  (f.unpackDecimal axis raw).map Decimal.toScalar

end CoordinateFormat

end Photoplot
