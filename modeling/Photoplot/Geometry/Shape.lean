import Photoplot.Geometry.Arc
import Photoplot.Geometry.Bounds

/-!
# Shapes

A shape is a geometry together with its polarity: dark shapes add material and clear shapes
remove what was drawn before.

## Main definitions

* `Geometry`, `Geometry.translate`, `Geometry.bounds`.
* `Polarity`, `Shape`.
-/

namespace Photoplot

/-- Whether material is added or removed. -/
inductive Polarity where
  | dark
  | clear
deriving DecidableEq, Repr

/-- Clear material is removed. -/
def Polarity.isClear : Polarity → Bool
  | .dark => false
  | .clear => true

/-- The exposure operand of a macro primitive: zero removes material, any other value, rounded
to an integer, adds it. -/
def Polarity.ofExposure {α : Type} [Scalar α] (value : α) : Polarity :=
  if Scalar.round value == 0 then .clear else .dark

/-- The geometry of a shape, in the coordinates of its layer. -/
inductive Geometry (α : Type) where
  | circle (center : Point α) (diameter : α)
  /-- Parallel to the axes, from its lower left corner. -/
  | rectangle (origin : Point α) (width height : α)
  | polygon (vertices : List (Point α))
  /-- A stroke with round ends. -/
  | line (start stop : Point α) (width : α)
  /-- A stroke along a circular span. -/
  | arc (span : Span α) (width : α)
deriving DecidableEq, Repr

namespace Geometry

variable {α : Type} [Scalar α]

/-- A geometry moved by an offset. -/
def translate (offset : Point α) : Geometry α → Geometry α
  | circle center diameter => circle (center + offset) diameter
  | rectangle origin width height => rectangle (origin + offset) width height
  | polygon vertices => polygon (vertices.map (· + offset))
  | line start stop width => line (start + offset) (stop + offset) width
  | arc span width => arc { span with center := span.center + offset } width

/-- The bounding box. That of an arc is the box around squares of the stroke width at the points
along it. -/
def bounds : Geometry α → Bounds α
  | circle center diameter => .around center diameter
  | rectangle origin width height => .ofSize origin width height
  | polygon vertices => .ofPoints vertices
  | line start stop width => (Bounds.around start width).join (.around stop width)
  | arc span width => span.points.foldl (fun b p => b.join (.around p width)) .empty

end Geometry

/-- A geometry and its polarity. -/
structure Shape (α : Type) where
  geometry : Geometry α
  polarity : Polarity
deriving DecidableEq, Repr

namespace Shape

variable {α : Type} [Scalar α]

/-- A shape moved by an offset. -/
def translate (offset : Point α) (s : Shape α) : Shape α :=
  { s with geometry := s.geometry.translate offset }

/-- The bounding box of a shape. -/
def bounds (s : Shape α) : Bounds α := s.geometry.bounds

end Shape

end Photoplot
