import Photoplot.Geometry.Outline
import Photoplot.Geometry.Shape
import Photoplot.Identifier

/-!
# Aperture Templates

An aperture is defined by a template with its dimensions. The shapes of the standard templates
are centred on the origin of the aperture; a hole is a clear circle drawn after them, never
larger than the template allows.

## Main definitions

* `Template`: the standard templates, an instance of a macro, and a template without geometry.
* `ApertureDefinition`: a template under a name.
* `CircleTemplate.shapes`, `RectangularTemplate.rectangleShapes`,
  `RectangularTemplate.obroundShapes`, `PolygonTemplate.shapes`.
-/

namespace Photoplot

/-- The dimensions of a circle. -/
structure CircleTemplate (α : Type) where
  diameter : α
  hole : Option α
deriving DecidableEq, Repr

/-- The dimensions of a rectangle or an obround. -/
structure RectangularTemplate (α : Type) where
  x : α
  y : α
  hole : Option α
deriving DecidableEq, Repr

/-- The dimensions of a regular polygon; the rotation is in degrees. -/
structure PolygonTemplate (α : Type) where
  outerDiameter : α
  vertices : Nat
  rotation : Option α
  hole : Option α
deriving DecidableEq, Repr

/-- What an aperture looks like. -/
inductive Template (α : Type) where
  | circle (t : CircleTemplate α)
  | rectangle (t : RectangularTemplate α)
  | obround (t : RectangularTemplate α)
  | polygon (t : PolygonTemplate α)
  /-- A macro by its name, with the values of its first variables. -/
  | macroCall (name : String) (parameters : List α)
  /-- A template that is known by name but has no geometry. -/
  | unsupported (name : String)
deriving DecidableEq, Repr

/-- A template under a name. -/
structure ApertureDefinition (α : Type) where
  id : ApertureId
  template : Template α
deriving DecidableEq, Repr

variable {α : Type} [Scalar α]

/-- A dark circle. -/
def darkCircle (center : Point α) (diameter : α) : Shape α :=
  ⟨.circle center diameter, .dark⟩

/-- A dark rectangle around the origin. -/
def centeredRectangle (width height : α) : Shape α :=
  ⟨.rectangle ⟨-width / 2, -height / 2⟩ width height, .dark⟩

/-- The hole of a template that is `limit` wide. A hole without size is no hole. -/
def holeShapes (hole : Option α) (limit : α) : List (Shape α) :=
  match hole with
  | none => []
  | some diameter =>
    if 0 < diameter then [⟨.circle .origin (Scalar.lesser diameter limit), .clear⟩] else []

/-- The shapes of a circle. -/
def CircleTemplate.shapes (t : CircleTemplate α) : List (Shape α) :=
  darkCircle .origin t.diameter :: holeShapes t.hole t.diameter

/-- The shapes of a rectangle. -/
def RectangularTemplate.rectangleShapes (t : RectangularTemplate α) : List (Shape α) :=
  centeredRectangle t.x t.y :: holeShapes t.hole (Scalar.lesser t.x t.y)

/-- The shapes of an obround: a rectangle, unless it would be empty, with a circle on each of
its short ends. -/
def RectangularTemplate.obroundShapes (t : RectangularTemplate α) : List (Shape α) :=
  let wide := t.y < t.x
  let width := if wide then t.x - t.y else t.x
  let height := if wide then t.y else t.y - t.x
  let diameter := Scalar.lesser t.x t.y
  let ends : List (Point α) :=
    if wide then [⟨width / 2, 0⟩, ⟨-(width / 2), 0⟩] else [⟨0, height / 2⟩, ⟨0, -(height / 2)⟩]
  (if 0 < width ∧ 0 < height then [centeredRectangle width height] else []) ++
    ends.map (darkCircle · diameter) ++ holeShapes t.hole diameter

/-- The shapes of a regular polygon of at least three vertices. -/
def PolygonTemplate.shapes (t : PolygonTemplate α) : List (Shape α) :=
  ⟨.polygon (Outline.regular t.outerDiameter (max t.vertices 3) (t.rotation.getD 0)), .dark⟩ ::
    holeShapes t.hole t.outerDiameter

end Photoplot
