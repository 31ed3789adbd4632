/-!
# Lengths in Double Precision

The length of a vector is the root of a sum of two squares, each rounded, followed by **one
correction step**. The step subtracts from the root `r` the quotient of the residual
`r² - (a² + b²)` and `2 * r`. The residual is written with the small excess of the root over one
of the components, so that the large squares cancel before anything is rounded.

The result is nearly always the nearest double, but not always. It is fixed by the operations
below and their order, which therefore must not be rearranged.

## Conventions

* Where squares would overflow or lose digits, both components are scaled by a power of two,
  which is exact.
* Beside a component that is `2 ^ 54` times as long the other one is **negligible**: it can only
  decide the rounding of their sum.

## Main definitions

* `Length.residual`, `Length.corrected`: the residual of a root, and the corrected root.
* `Length.hypot`: the length of a vector.
-/

namespace Photoplot.Length

/-- The residual `root² - (longer² + shorter²)`. The excess is taken over the shorter component
when the root is at most twice as long as that, and else over the longer one. -/
def residual (longer shorter root : Float) : Float :=
  if root ≤ 2 * shorter then
    let excess := root - shorter
    longer * (2 * excess - longer) + (excess - 2 * (longer - shorter)) * excess
  else
    let excess := root - longer
    2 * excess * (longer - 2 * shorter) + ((4 * excess - shorter) * shorter + excess * excess)

/-- The length of a vector whose squares neither overflow nor lose digits. -/
def corrected (longer shorter : Float) : Float :=
  let root := (longer * longer + shorter * shorter).sqrt
  root - residual longer shorter root / (2 * root)

/-- The factor by which components are scaled. -/
def scale : Float := Float.ofNat (1 <<< 600)

/-- A longer component above this bound is scaled down. -/
def upperBound : Float := Float.ofNat (1 <<< 511)

/-- A shorter component below this bound is scaled up. -/
def lowerBound : Float := 1.0 / Float.ofNat (1 <<< 459)

/-- Whether a component adds nothing to the length of a longer one before rounding. -/
def isNegligible (longer shorter : Float) : Bool := shorter * Float.ofNat (1 <<< 54) ≤ longer

/-- The length of the vector `(x, y)`. It is infinite if a component is, even beside one that is
not a number. -/
def hypot (x y : Float) : Float :=
  if x.isInf || y.isInf then 1.0 / 0.0
  else
    let (longer, shorter) := if x.abs < y.abs then (y.abs, x.abs) else (x.abs, y.abs)
    if isNegligible longer shorter then longer + shorter
    else if upperBound < longer then corrected (longer / scale) (shorter / scale) * scale
    else if shorter < lowerBound then corrected (longer * scale) (shorter * scale) / scale
    else corrected longer shorter

end Photoplot.Length
