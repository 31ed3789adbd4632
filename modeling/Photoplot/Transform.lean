import Photoplot.Geometry.Shape

/-!
# Object Transforms

The transform that is in force when an aperture is flashed or stroked: its polarity, and a
geometric part that mirrors, then scales, then rotates about the origin of the aperture. The
polarity is applied where the aperture is pasted, so only the geometric part changes shapes.

## Main definitions

* `Transform.tag`: the text that names the geometric part.
* `Transform.isIdentity`: whether the geometric part changes nothing.
* `Transform.applyPoint`, `Transform.applyAngle`, `Transform.applyShape`: the geometric part on
  points, angles and shapes.
-/

namespace Photoplot

/-- The axes whose coordinates change sign. -/
inductive Mirroring where
  | none
  | x
  | y
  | xy
deriving DecidableEq, Repr

namespace Mirroring

/-- Whether the first coordinate changes sign. -/
def mirrorsX : Mirroring → Bool
  | x | xy => true
  | none | y => false

/-- Whether the second coordinate changes sign. -/
def mirrorsY : Mirroring → Bool
  | y | xy => true
  | none | x => false

/-- The letters of the mirrored axes. -/
def text : Mirroring → String
  | none => "N"
  | x => "X"
  | y => "Y"
  | xy => "XY"

end Mirroring

/-- An object transform. The rotation is in degrees, counter-clockwise. -/
structure Transform (α : Type) where
  polarity : Polarity
  mirroring : Mirroring
  rotation : α
  scale : α
deriving DecidableEq, Repr

namespace Transform

variable {α : Type} [Scalar α]

/-- The transform in force at the beginning. -/
def initial : Transform α where
  polarity := .dark
  mirroring := .none
  rotation := 0
  scale := 1

/-- The name of the geometric part. Polarity takes no part in it. -/
def tag [Legible α] (t : Transform α) : String :=
  "M" ++ t.mirroring.text ++ ",R" ++ Legible.text t.rotation ++ ",S" ++ Legible.text t.scale

/-- Whether the geometric part changes nothing. Full turns count as no rotation. -/
def isIdentity (t : Transform α) : Bool :=
  t.mirroring == .none && Scalar.isMultipleOf t.rotation 360 && t.scale == 1

/-- The image of a point. -/
def applyPoint (t : Transform α) (p : Point α) : Point α :=
  let mirrored : Point α :=
    ⟨if t.mirroring.mirrorsX then -p.x else p.x, if t.mirroring.mirrorsY then -p.y else p.y⟩
  (mirrored.scale t.scale).rotate t.rotation

/-- The direction of the image of a direction. -/
def applyAngle (t : Transform α) (angle : α) : α :=
  let mirrored := match t.mirroring with
    | .none => angle
    | .x => Scalar.pi - angle
    | .y => -angle
    | .xy => angle + Scalar.pi
  mirrored + Scalar.radians t.rotation

/-- The image of a span. A single mirror axis reverses the direction of travel. -/
def applySpan (t : Transform α) (s : Span α) : Span α where
  center := t.applyPoint s.center
  radius := s.radius * t.scale
  startAngle := t.applyAngle s.startAngle
  sweepAngle :=
    if t.mirroring.mirrorsX != t.mirroring.mirrorsY then -s.sweepAngle else s.sweepAngle

/-- The image of a geometry. A rectangle stays a rectangle under quarter turns and becomes a
polygon under other rotations. -/
def applyGeometry (t : Transform α) : Geometry α → Geometry α
  | .circle center diameter => .circle (t.applyPoint center) (diameter * t.scale)
  | .rectangle origin width height =>
    let corners := (Bounds.ofSize origin width height).corners.map t.applyPoint
    if Scalar.isMultipleOf t.rotation 90 then
      let box := Bounds.ofPoints corners
      .rectangle box.min box.width box.height
    else .polygon corners
  | .polygon vertices => .polygon (vertices.map t.applyPoint)
  | .line start stop width =>
    .line (t.applyPoint start) (t.applyPoint stop) (width * t.scale)
  | .arc span width => .arc (t.applySpan span) (width * t.scale)

/-- The image of a shape, with the same polarity. -/
def applyShape (t : Transform α) (s : Shape α) : Shape α :=
  { s with geometry := t.applyGeometry s.geometry }

end Transform

end Photoplot
