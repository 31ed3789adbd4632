/-!
# Scalars

All geometry of this library is written over an abstract **scalar**, so that one definition
serves both to run, on doubles, and to be reasoned about, on the real numbers. A scalar has
the arithmetic and comparisons of an ordered field and the functions of plane trigonometry.

## Conventions

* Comparisons are decided, and equality is the one of the scalar itself: a scalar may have
  values that are **not numbers**, which differ even from themselves and are neither below
  nor above anything.
* Literals are casts of natural numbers, or decimals such as `1e-6`.
* Angles are in radians unless a name says degrees.

## Main definitions

* `Scalar`: the operations that a scalar provides.
* `Scalar.lesser`, `Scalar.greater`: minimum and maximum that prefer numbers.
* `Legible`: a scalar that can be written as text.
-/

namespace Photoplot

/-- The operations that geometry needs of its numbers. -/
class Scalar (α : Type) extends Add α, Sub α, Mul α, Div α, Neg α, NatCast α, OfScientific α,
    BEq α, LT α, LE α where
  /-- Order comparisons are decided. -/
  decidableLT : DecidableLT α
  /-- Order comparisons are decided. -/
  decidableLE : DecidableLE α
  /-- The magnitude. -/
  abs : α → α
  /-- The nearest integral value, halves away from zero. -/
  round : α → α
  /-- The integral part as a natural number; zero for what is below zero or no number. -/
  toNat : α → Nat
  /-- Whether a value is an integral multiple of a natural number. -/
  isMultipleOf : α → Nat → Bool
  /-- The length of a half circle of radius one. -/
  pi : α
  /-- The end of the range of coordinates. -/
  largest : α
  /-- Whether the range really ends there, so that what lies beyond it is cut off. -/
  isLimited : Bool
  sin : α → α
  cos : α → α
  asin : α → α
  /-- `atan2 y x` is the angle of the vector `(x, y)`, from `-pi` to `pi`. -/
  atan2 : α → α → α
  /-- The length of a vector. -/
  hypot : α → α → α

attribute [reducible, instance] Scalar.decidableLT Scalar.decidableLE

/-- A scalar that can be written down. -/
class Legible (α : Type) where
  /-- The text of a scalar. -/
  text : α → String
  /-- A text is made of letters, digits, points and minus signs. -/
  legible (a : α) : ∀ c ∈ (text a).toList, c.isAlphanum ∨ c = '.' ∨ c = '-'

namespace Scalar

variable {α : Type} [Scalar α]

/-- Numerals are casts of natural numbers. -/
instance (priority := low) instOfNat (n : Nat) : OfNat α n where
  ofNat := NatCast.natCast n

/-- A value is a **number** when it equals itself. -/
def isNumber (a : α) : Bool := a == a

/-- The lesser of two values. What is not a number gives way to the other value, and of two
equal values, which need not have the same sign, the second is taken. -/
def lesser (a b : α) : α :=
  if isNumber b then (if a < b then a else b) else a

/-- The greater of two values. What is not a number gives way to the other value, and of two
equal values, which need not have the same sign, the second is taken. -/
def greater (a b : α) : α :=
  if isNumber b then (if b < a then a else b) else a

/-- The least and the greatest of the numbers in a list, if it holds a number. -/
def extremes : List α → Option (α × α)
  | [] => none
  | a :: rest =>
    match extremes rest with
    | none => if isNumber a then some (a, a) else none
    | some (least, greatest) => some (lesser a least, greater a greatest)

/-- Degrees as an angle in radians. -/
def radians (degrees : α) : α := degrees * (pi / 180)

end Scalar

end Photoplot
