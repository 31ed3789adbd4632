import Photoplot.Decimal

/-!
# Doubles as Exact Numbers

A finite double is `±significand * 2 ^ exponent` with a natural significand below `2 ^ 53`.
Everything that is printed about a double is computed from this form in exact arithmetic on
natural numbers; no intermediate result is rounded.

## Main definitions

* `Binary.ofFloat`: the class, sign, significand and exponent of a double.
* `Binary.roundedUnits`: the magnitude in units of `10 ^ -places`, rounded once, ties to even.
* `Binary.isMultipleOf`: whether a double is an integral multiple of a natural number.
-/

namespace Photoplot

/-- What the bits of a double stand for. A finite value is
`±significand * 2 ^ exponent`; both zeros have significand `0`. -/
inductive Binary where
  | notANumber
  | infinite (negative : Bool)
  | finite (negative : Bool) (significand : Nat) (exponent : Int)
deriving DecidableEq, Repr

namespace Binary

/-- The leading bit of a significand, which is not stored: `2 ^ 52`. -/
def hiddenBit : Nat := 1 <<< 52

/-- Reads the sign bit, the eleven bits of the biased exponent and the 52 bits of the
fraction. A biased exponent of zero marks a number without the hidden leading bit. -/
def ofFloat (x : Float) : Binary :=
  let bits := x.toBits.toNat
  let negative := bits >>> 63 == 1
  let biased : Nat := (bits >>> 52) % 2048
  let fraction : Nat := bits % hiddenBit
  if biased = 2047 then
    if fraction = 0 then .infinite negative else .notANumber
  else if biased = 0 then .finite negative fraction (-1074)
  else .finite negative (hiddenBit + fraction) ((biased : Int) - 1075)

/-- `significand * 2 ^ exponent` as a fraction of natural numbers. -/
def fraction (significand : Nat) (exponent : Int) : Nat × Nat :=
  match exponent with
  | .ofNat e => (significand <<< e, 1)
  | .negSucc e => (significand, 1 <<< (e + 1))

/-- `significand * 2 ^ exponent` in units of `10 ^ -places`, ties to even. -/
def roundedUnits (places significand : Nat) (exponent : Int) : Nat :=
  let (numerator, denominator) := fraction significand exponent
  Decimal.divHalfEven (numerator * Decimal.scale places) denominator

/-- A double is an **integral multiple** of `n` when dividing by `n` leaves no remainder; an
infinity and what is not a number are multiples of nothing. -/
def isMultipleOf (x : Float) (n : Nat) : Bool :=
  match ofFloat x with
  | .finite _ significand exponent =>
    let (numerator, denominator) := fraction significand exponent
    numerator % (denominator * n) == 0
  | _ => false

end Binary

end Photoplot
