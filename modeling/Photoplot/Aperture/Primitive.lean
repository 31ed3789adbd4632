import Photoplot.Action
import Photoplot.Aperture

/-!
# Aperture Macros

A macro is a list of statements. Assignments bind variables for the statements after them, and
every primitive is evaluated under the bindings that stand at its place. The shapes of a
primitive lie around the origin of the macro, about which they are also rotated.

## Order of evaluation

The operands of a primitive are evaluated in a fixed order, which decides what error an
expression without a value ends with. A primitive that turns out to be degenerate is passed
over with a warning before its remaining operands are evaluated.

## Main definitions

* `Primitive`, `MacroStatement`, `ApertureMacro`.
* `Primitive.shapes`: the shapes of one primitive.
* `ApertureMacro.shapes`: the shapes of a macro under given parameters.
-/

namespace Photoplot

/-- A primitive with its operands. Rotations are in degrees. -/
inductive Primitive (α : Type) where
  | circle (exposure diameter x y : Expression α) (rotation : Option (Expression α))
  /-- A rectangle from one point to another. -/
  | vectorLine (exposure width startX startY endX endY rotation : Expression α)
  /-- A rectangle around a point. -/
  | centerLine (exposure width height x y rotation : Expression α)
  /-- A rectangle from its lower left corner. -/
  | lowerLeftLine (exposure width height x y rotation : Expression α)
  | outline (exposure : Expression α) (points : List (Expression α × Expression α))
      (rotation : Expression α)
  | polygon (exposure vertices x y diameter rotation : Expression α)
  /-- Concentric rings and a crosshair. -/
  | moire (x y outerDiameter ringThickness gap maxRings crosshairThickness crosshairLength
      rotation : Expression α)
  /-- A ring with four gaps. -/
  | thermal (x y outerDiameter innerDiameter gap rotation : Expression α)

/-- The number that stands for a primitive in the body of a macro. -/
def Primitive.code {α : Type} : Primitive α → Nat
  | circle .. => 1
  | vectorLine .. => 20
  | centerLine .. => 21
  | lowerLeftLine .. => 22
  | outline .. => 4
  | polygon .. => 5
  | moire .. => 6
  | thermal .. => 7

/-- A statement of a macro. -/
inductive MacroStatement (α : Type) where
  | comment (text : String)
  | assignment (number : Nat) (value : Expression α)
  | primitive (p : Primitive α)

/-- A macro under its name. -/
structure ApertureMacro (α : Type) where
  name : String
  body : List (MacroStatement α)

variable {α : Type} [Scalar α]

/-! ### Shapes about the macro origin -/

/-- A polygon, rotated about the origin. -/
def rotatedPolygon (vertices : List (Point α)) (degrees : α) (polarity : Polarity) : Shape α :=
  ⟨.polygon (vertices.map (·.rotate degrees)), polarity⟩

/-- A rectangle, rotated about the origin. Under full turns it stays a rectangle. -/
def rotatedRectangle (origin : Point α) (width height degrees : α) (polarity : Polarity) :
    Shape α :=
  if Scalar.isMultipleOf degrees 360 then ⟨.rectangle origin width height, polarity⟩
  else rotatedPolygon (Bounds.ofSize origin width height).corners degrees polarity

/-- The lower left corner of a rectangle around a point. -/
def lowerLeft (center : Point α) (width height : α) : Point α :=
  ⟨center.x - width / 2, center.y - height / 2⟩

/-- The corners of the rectangle of a given width from one point to another that lies `length`
away. -/
def lineCorners (start stop : Point α) (width length : α) : List (Point α) :=
  let direction := stop - start
  let normal := (⟨-direction.y, direction.x⟩ : Point α).scale (width / 2 / length)
  [start - normal, stop - normal, stop + normal, start + normal]

/-! ### Moiré rings -/

/-- One ring: a stroked circle, or a disc when the ring leaves no hole. -/
def ringShape (center : Point α) (outer thickness : α) : Shape α :=
  let inner := Scalar.greater (outer - 2 * thickness) 0
  if inner == 0 then darkCircle center outer
  else
    ⟨.arc ⟨center, (outer + inner) / 4, 0, 2 * Scalar.pi⟩ ((outer - inner) / 2), .dark⟩

/-- At most `count` rings from the given one inwards. Each is smaller than the one before by
twice the thickness and the gap; a ring without size ends the rings, and so does a pitch that
would repeat the same ring. -/
def rings (center : Point α) (outerDiameter thickness gap : α) (ring : Nat) :
    Nat → List (Shape α)
  | 0 => []
  | count + 1 =>
    let outer := outerDiameter - 2 * (ring : α) * (thickness + gap)
    if outer ≤ 0 then []
    else
      ringShape center outer thickness ::
        if thickness + gap ≤ 0 then []
        else rings center outerDiameter thickness gap (ring + 1) count

/-- The two bars of a crosshair, if they have a size. -/
def crosshair (center : Point α) (thickness length degrees : α) : List (Shape α) :=
  if 0 < thickness ∧ 0 < length then
    [(length, thickness), (thickness, length)].map fun (width, height) =>
      rotatedRectangle (lowerLeft center width height) width height degrees .dark
  else []

/-! ### Thermals -/

/-- Seventeen points along an arc about a point, from one angle to another. -/
def arcPoints (center : Point α) (radius start stop : α) : List (Point α) :=
  (List.range 17).map fun (step : Nat) =>
    let angle := start + (stop - start) * (step : α) / 16
    ⟨center.x + radius * Scalar.cos angle, center.y + radius * Scalar.sin angle⟩

/-- The inner boundary of the sector of a thermal that begins at the angle `base`: an arc, or,
when the gap is at least as wide as the hole, the corner of the two edges of the gap. -/
def sectorInner (center : Point α) (innerRadius halfGap base : α) : List (Point α) :=
  if halfGap < innerRadius then
    let trim := Scalar.asin (halfGap / innerRadius)
    arcPoints center innerRadius (base + Scalar.pi / 2 - trim) (base + trim)
  else
    let s := Scalar.sin base
    let c := Scalar.cos base
    [center + ⟨halfGap * (c - s), halfGap * (s + c)⟩]

/-- The outlines of the four sectors of a thermal: quarters of a ring, trimmed by half the gap
on both sides. -/
def thermalSectors (center : Point α) (outerRadius innerRadius halfGap : α) :
    List (List (Point α)) :=
  let trim := Scalar.asin (halfGap / outerRadius)
  (List.range 4).map fun (quadrant : Nat) =>
    let base := (quadrant : α) * (Scalar.pi / 2)
    arcPoints center outerRadius (base + trim) (base + Scalar.pi / 2 - trim) ++
      sectorInner center innerRadius halfGap base

/-! ### Evaluation -/

/-- The value of an expression under the bindings. -/
def value (e : Expression α) : Action (Bindings α) α := fun b =>
  ⟨(e.eval b).mapError .expression, b, []⟩

/-- The point that two expressions give, the first coordinate evaluated first. -/
def pointValue (x y : Expression α) : Action (Bindings α) (Point α) := do
  let x ← value x
  let y ← value y
  pure ⟨x, y⟩

/-- The points that pairs of expressions give, in order. -/
def pointValues : List (Expression α × Expression α) → Action (Bindings α) (List (Point α))
  | [] => pure []
  | (x, y) :: rest => do
    let p ← pointValue x y
    let points ← pointValues rest
    pure (p :: points)

/-- The polarity that an exposure operand gives. -/
def polarityValue (e : Expression α) : Action (Bindings α) Polarity := do
  let exposure ← value e
  pure (.ofExposure exposure)

/-- The number of vertices of a polygon primitive, from three to twelve. -/
def vertexCount (vertices : α) : Nat :=
  Scalar.toNat (Scalar.lesser (Scalar.greater (Scalar.round vertices) 3) 12)

/-- The number of rings of a moiré, at least zero. -/
def ringCount (maxRings : α) : Nat := Scalar.toNat (Scalar.greater (Scalar.round maxRings) 0)

/-- The shapes of a primitive of the macro with a given name. -/
def Primitive.shapes (name : String) : Primitive α → Action (Bindings α) (List (Shape α))
  | circle exposure diameter x y rotation => do
    let degrees ← match rotation with
      | some rotation => value rotation
      | none => pure 0
    let center ← pointValue x y
    let diameter ← value diameter
    let polarity ← polarityValue exposure
    pure [⟨.circle (center.rotate degrees) (Scalar.abs diameter), polarity⟩]
  | vectorLine exposure width startX startY endX endY rotation => do
    let start ← pointValue startX startY
    let stop ← pointValue endX endY
    let width ← value width
    let direction := stop - start
    let length := Scalar.hypot direction.x direction.y
    if length == 0 then
      Action.warn (.lineWithoutLength name)
      pure []
    else
      let degrees ← value rotation
      let polarity ← polarityValue exposure
      pure [rotatedPolygon (lineCorners start stop width length) degrees polarity]
  | centerLine exposure width height x y rotation => do
    let width ← value width
    let height ← value height
    let center ← pointValue x y
    let degrees ← value rotation
    let polarity ← polarityValue exposure
    pure [rotatedRectangle (lowerLeft center width height) width height degrees polarity]
  | lowerLeftLine exposure width height x y rotation => do
    let origin ← pointValue x y
    let width ← value width
    let height ← value height
    let degrees ← value rotation
    let polarity ← polarityValue exposure
    pure [rotatedRectangle origin width height degrees polarity]
  | outline exposure points rotation => do
    let points ← pointValues points
    let vertices := Outline.withoutRepeats (1e-6 : α) points
    if vertices.length < 3 then
      Action.warn (.degenerateOutline name)
      pure []
    else
      let degrees ← value rotation
      let polarity ← polarityValue exposure
      pure [rotatedPolygon vertices degrees polarity]
  | polygon exposure vertices x y diameter rotation => do
    let vertices ← value vertices
    let center ← pointValue x y
    let diameter ← value diameter
    let outline := (Outline.regular diameter (vertexCount vertices) 0).map (· + center)
    let degrees ← value rotation
    let polarity ← polarityValue exposure
    pure [rotatedPolygon outline degrees polarity]
  | moire x y outerDiameter ringThickness gap maxRings crosshairThickness crosshairLength
      rotation => do
    let degrees ← value rotation
    let center ← pointValue x y
    let outerDiameter ← value outerDiameter
    let thickness ← value ringThickness
    let gap ← value gap
    let maxRings ← value maxRings
    let barThickness ← value crosshairThickness
    let barLength ← value crosshairLength
    pure (rings (center.rotate degrees) outerDiameter thickness gap 0 (ringCount maxRings) ++
      crosshair center barThickness barLength degrees)
  | thermal x y outerDiameter innerDiameter gap rotation => do
    let center ← pointValue x y
    let outerDiameter ← value outerDiameter
    let innerDiameter ← value innerDiameter
    let gap ← value gap
    let degrees ← value rotation
    let outerRadius := outerDiameter / 2
    let innerRadius := Scalar.greater (innerDiameter / 2) 0
    let halfGap := gap / 2
    if outerRadius ≤ innerRadius ∨ outerRadius ≤ halfGap then
      Action.warn (.degenerateThermal name)
      pure []
    else
      pure ((thermalSectors center outerRadius innerRadius halfGap).map
        (rotatedPolygon · degrees .dark))

/-- The shapes of one statement of the macro with a given name. -/
def MacroStatement.shapes (name : String) :
    MacroStatement α → Action (Bindings α) (List (Shape α))
  | comment _ => pure []
  | assignment number e => do
    let v ← value e
    let b ← Action.get
    let b ← Action.ofExcept ((b.put number v).mapError .expression)
    Action.modify fun _ => b
    pure []
  | primitive p => p.shapes name

namespace ApertureMacro

/-- The shapes of statements, one after the other. -/
def bodyShapes (name : String) : List (MacroStatement α) → Action (Bindings α) (List (Shape α))
  | [] => pure []
  | s :: rest => do
    let first ← s.shapes name
    let others ← bodyShapes name rest
    pure (first ++ others)

/-- The shapes of a macro whose first variables have the values of the parameters. -/
def shapes {σ : Type} (m : ApertureMacro α) (parameters : List α) : Action σ (List (Shape α)) :=
  Action.inside (Bindings.ofParameters parameters) (bodyShapes m.name m.body)

end ApertureMacro

end Photoplot
