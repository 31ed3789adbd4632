import Photoplot.Scalar

/-!
# Points

A point of the plane, used for positions and for offsets alike.

## Main definitions

* `Point`: two coordinates, added and subtracted componentwise.
* `Point.rotate`: rotation about the origin, counter-clockwise, in degrees.
* `Point.distance`: the distance of two points.
* `Point.near`: whether two points agree on both axes up to a tolerance.
-/

namespace Photoplot

/-- A position, or an offset. -/
structure Point (α : Type) where
  x : α
  y : α
deriving DecidableEq, Repr

namespace Point

variable {α : Type} [Scalar α]

instance : Add (Point α) where
  add p q := ⟨p.x + q.x, p.y + q.y⟩

instance : Sub (Point α) where
  sub p q := ⟨p.x - q.x, p.y - q.y⟩

/-- The origin. -/
def origin : Point α := ⟨0, 0⟩

/-- Both coordinates multiplied by a factor. -/
def scale (p : Point α) (factor : α) : Point α := ⟨p.x * factor, p.y * factor⟩

/-- The point at an angle and a distance from the origin. -/
def polar (radius angle : α) : Point α :=
  ⟨radius * Scalar.cos angle, radius * Scalar.sin angle⟩

/-- Counter-clockwise rotation about the origin. A rotation by zero degrees leaves the point
untouched, whatever its coordinates. -/
def rotate (p : Point α) (degrees : α) : Point α :=
  if degrees == 0 then p
  else
    let angle := Scalar.radians degrees
    let s := Scalar.sin angle
    let c := Scalar.cos angle
    ⟨p.x * c - p.y * s, p.x * s + p.y * c⟩

/-- The distance of two points. -/
def distance (p q : Point α) : α := Scalar.hypot (q.x - p.x) (q.y - p.y)

/-- The direction from `center` to `p`. -/
def angleFrom (center p : Point α) : α := Scalar.atan2 (p.y - center.y) (p.x - center.x)

/-- Whether two points are closer than `tolerance` on each axis. -/
def near (tolerance : α) (p q : Point α) : Bool :=
  Scalar.abs (p.x - q.x) < tolerance && Scalar.abs (p.y - q.y) < tolerance

end Point

end Photoplot
