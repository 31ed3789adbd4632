import Photoplot.Decimal.Binary
import Photoplot.Geometry.Outline

/-!
# Covered Area

The area that an outline covers by the **even-odd rule**: a point is covered when a ray from it
crosses the outline an odd number of times. The outline may cross itself.

Horizontal lines through all vertices and all crossings of edges cut the plane into slabs. In a
slab the edges run side by side, and the parts between the first and the second, the third and
the fourth, and so on are covered. They are trapezoids, so their widths at half height give the
exact area, which is computed over the rational numbers.

The triangles of an outline that is not convex are made by a tessellator, which is not part of this
library. Whatever triangles it makes, their areas add up to the area that is covered. So the area
computed here stands for its result. It is there to be computed, and no theorem rests on it.

## Main definitions

* `Coverage.evenOddArea`: the area covered by an outline with rational vertices.
* `Coverage.area?`: the area covered by an outline in single precision.
-/

namespace Photoplot.Coverage

/-- An edge that is not horizontal, from its lower to its upper end. -/
structure Side where
  x₁ : Rat
  y₁ : Rat
  x₂ : Rat
  y₂ : Rat

/-- The abscissa at a given height. -/
def Side.at (e : Side) (y : Rat) : Rat := e.x₁ + (e.x₂ - e.x₁) * (y - e.y₁) / (e.y₂ - e.y₁)

/-- The edge between two points, unless it is horizontal. -/
def Side.between? : (Rat × Rat) × (Rat × Rat) → Option Side
  | ((x₁, y₁), (x₂, y₂)) =>
    if y₁ < y₂ then some ⟨x₁, y₁, x₂, y₂⟩
    else if y₂ < y₁ then some ⟨x₂, y₂, x₁, y₁⟩
    else none

/-- Whether an edge spans the slab between two heights. -/
def Side.spans (e : Side) (low high : Rat) : Bool := e.y₁ ≤ low && high ≤ e.y₂

/-- The height at which two edges cross, if they do. -/
def crossing? (e f : Side) : Option Rat :=
  let low := if e.y₁ ≤ f.y₁ then f.y₁ else e.y₁
  let high := if e.y₂ ≤ f.y₂ then e.y₂ else f.y₂
  let below := e.at low - f.at low
  let above := e.at high - f.at high
  if low < high ∧ below ≠ above then
    let y := low + (high - low) * below / (below - above)
    if low < y ∧ y < high then some y else none
  else none

/-- A sorted list without its repeated members. -/
def withoutEqual : List Rat → List Rat
  | a :: b :: rest => if a = b then withoutEqual (b :: rest) else a :: withoutEqual (b :: rest)
  | short => short

/-- All heights at which edges begin, end or cross, in order. -/
def levels (edges : List Side) : List Rat :=
  let ends := edges.flatMap fun e => [e.y₁, e.y₂]
  let crossings := edges.flatMap fun e => edges.filterMap (crossing? e)
  withoutEqual ((ends ++ crossings).mergeSort fun a b => decide (a ≤ b))

/-- The total width of the parts between the first and second, the third and fourth, and so on
of some abscissas in order. -/
def widths : List Rat → Rat
  | a :: b :: rest => (b - a) + widths rest
  | _ => 0

/-- The covered area of a slab. -/
def slabArea (edges : List Side) (low high : Rat) : Rat :=
  let middle := (low + high) / 2
  let abscissas := (edges.filter (·.spans low high)).map (·.at middle)
  widths (abscissas.mergeSort fun a b => decide (a ≤ b)) * (high - low)

/-- The covered area of the slabs between heights in order. -/
def slabsArea (edges : List Side) : List Rat → Rat
  | low :: high :: rest => slabArea edges low high + slabsArea edges (high :: rest)
  | _ => 0

/-- The area covered by an outline. -/
def evenOddArea (vertices : List (Rat × Rat)) : Rat :=
  let edges := (vertices.zip (Outline.successors vertices)).filterMap Side.between?
  slabsArea edges (levels edges)

/-- The exact value of a coordinate in single precision, if it is finite. -/
def exactSingle? (x : Float) : Option Rat :=
  match Binary.ofFloat x.toFloat32.toFloat with
  | .finite negative significand exponent =>
    let (numerator, denominator) := Binary.fraction significand exponent
    let magnitude : Rat := mkRat numerator denominator
    some (if negative then -magnitude else magnitude)
  | _ => none

/-- The area covered by an outline whose coordinates are rounded to single precision; none if a
coordinate is not finite. -/
def area? (vertices : List (Point Float)) : Option Rat := do
  let exact ← vertices.mapM fun p => do
    let x ← exactSingle? p.x
    let y ← exactSingle? p.y
    pure (x, y)
  pure (evenOddArea exact)

end Photoplot.Coverage
