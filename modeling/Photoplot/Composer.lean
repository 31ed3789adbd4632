import Photoplot.Layer.Contour
import Photoplot.Layer.Library
import Photoplot.Picture
import Photoplot.Receiver

/-!
# Composing Layers

The composer receives the geometry of a program and draws it into layers. Every aperture and
every block becomes a layer of its own in the library, which a flash pastes, transformed if a
transform is in force. The layers that are being drawn form a stack: the main layer at the
bottom, and above it the bodies of the blocks and step-and-repeats that are open.

## Main definitions

* `Composer`: the library, the stack and the open contour.
* `Composer.strokeWidth`: the width of a stroke with the selected aperture.
* `Composer.receiver`: the callbacks.
* `Composer.finish`: the picture.
-/

namespace Photoplot

/-- A library and the layers in the making. -/
structure Composer (α : Type) extends Library α where
  /-- The layer that is drawn into. -/
  top : Layer α
  /-- The layers below it on the stack, the main layer last. -/
  below : List (Layer α)
  contour : Option (Contour α)
  /-- The number of step-and-repeats so far. -/
  stepRepeats : Nat

namespace Composer

variable {α : Type}

/-- The composer before the first command. -/
def initial : Composer α where
  toLibrary := .empty
  top := .empty .main
  below := []
  contour := none
  stepRepeats := 0

/-! ### The stack and the library -/

/-- The stack from the bottom. -/
def stack (c : Composer α) : List (Layer α) := (c.top :: c.below).reverse

/-- A layer by its id: a complete one, or else the lowest of that name on the stack. -/
def layer? (c : Composer α) (id : LayerId) : Option (Layer α) :=
  match c.layers[id]? with
  | some layer => some layer
  | none => c.stack.find? (·.id == id)

/-- Draws into the top layer. -/
def draw (f : Layer α → Layer α) : Action (Composer α) Unit :=
  Action.modify fun c => { c with top := f c.top }

/-- Begins a layer on top of the stack. -/
def begin (id : LayerId) : Action (Composer α) Unit :=
  Action.modify fun c => { c with top := .empty id, below := c.top :: c.below }

/-- Acts on the library. -/
def onLibrary {β : Type} (a : Action (Library α) β) : Action (Composer α) β :=
  Action.focus toLibrary (fun c lib => { c with toLibrary := lib }) a

variable [Scalar α]

/-- Revises the library. -/
def revise [Legible α] (r : Revision α) : Action (Composer α) Unit :=
  onLibrary (Action.modify (Library.revise r))

/-! ### Strokes -/

/-- The unit vector across a segment; across a segment without length it points up. -/
def normal (start stop : Point α) : Point α :=
  let direction := stop - start
  let length := Scalar.hypot direction.x direction.y
  if 0 < length then ⟨-direction.y / length, direction.x / length⟩ else ⟨0, 1⟩

/-- The corners of a rectangle around the origin, under a transform. -/
def transformedCorners (t : Transform α) (x y : α) : List (Point α) :=
  [(-1, -1), (1, -1), (1, 1), (-1, 1)].map fun (sx, sy) => t.applyPoint ⟨sx * x / 2, sy * y / 2⟩

/-- The extent of some points along a direction. Without a number among the distances it is that
of the empty set, below everything. -/
def extentAlong (direction : Point α) (points : List (Point α)) : α :=
  match Scalar.extremes (points.map fun p => p.x * direction.x + p.y * direction.y) with
  | some (least, greatest) => greatest - least
  | none => -(1 / 0)

/-- The width of a stroke with the selected aperture. A rectangle or obround is as wide as the
transformed aperture across the stroke. Blocks and macros have no stroke. -/
def strokeWidth {σ : Type} (s : GraphicsState α) (start stop : Point α) :
    Action σ (Option α) := do
  match ← Action.ofExcept s.current with
  | .block b =>
    Action.warn (.strokeWithBlock b.id)
    pure none
  | .aperture d =>
    match d.template with
    | .circle t => pure (some (t.diameter * s.transform.scale))
    | .rectangle t | .obround t =>
      pure (some (extentAlong (normal start stop) (transformedCorners s.transform t.x t.y)))
    | .polygon t => pure (some (t.outerDiameter * s.transform.scale))
    | .macroCall name _ =>
      Action.warn (.strokeWithMacro d.id name)
      pure none
    | .unsupported _ => Action.fail (.apertureNotDrawable d.id)

/-- The shapes of a stroke: a circle at each end and the geometries between them. -/
def strokeShapes (segment : Segment α) (width : α) (strokes : List (Geometry α))
    (polarity : Polarity) : List (Shape α) :=
  let cap (center : Point α) : Geometry α := .circle center width
  (cap segment.start :: strokes ++ [cap segment.stop]).map fun g => ⟨g, polarity⟩

/-- Draws a stroke with the selected aperture, if it has one. -/
def stroke (s : GraphicsState α) (segment : Segment α) (strokes : α → List (Geometry α)) :
    Action (Composer α) Unit := do
  match ← strokeWidth s segment.start segment.stop with
  | none => pure ()
  | some width =>
    let shapes := strokeShapes segment width (strokes width) s.transform.polarity
    draw (·.append (shapes.map .shape))

/-! ### Contours -/

/-- Adds edges to the open contour. -/
def extendContour (start : Point α) (edges : List (Edge α)) : Action (Composer α) Unit := do
  if ← Action.gets (·.contour.isNone) then Action.fail .contourNotOpen
  else
    let extend (contour : Contour α) : Contour α :=
      edges.foldl (fun contour edge => contour.push start edge) contour
    Action.modify fun c => { c with contour := c.contour.map extend }

/-- The edges of an arc. Only the last one ends at the commanded point; the first half of a full
circle ends where its points end. -/
def arcEdges (stop : Point α) : List (Span α) → List (Edge α)
  | [] => []
  | [span] => [.arc span stop]
  | span :: rest => .arc span (span.points.getLast?.getD stop) :: arcEdges stop rest

/-- Closes the open contour and draws the polygon that it bounds. What closing leaves is a contour
without edges (`Contour.state_close`). -/
def flushContour (s : GraphicsState α) : Action (Composer α) Unit := do
  match ← Action.gets (·.contour) with
  | none => Action.fail .contourNotOpen
  | some contour =>
    let outline ← Action.inside contour Contour.close
    Action.modify fun c => { c with contour := some .empty }
    match outline with
    | none => pure ()
    | some outline => draw (·.pushShape (Contour.fill outline s.transform.polarity))

/-! ### Callbacks -/

/-- The shapes of an aperture; a template without geometry has none at all. -/
def apertureShapes {σ : Type} (s : GraphicsState α) :
    Template α → Action σ (Option (List (Shape α)))
  | .circle t => pure (some t.shapes)
  | .rectangle t => pure (some t.rectangleShapes)
  | .obround t => pure (some t.obroundShapes)
  | .polygon t => pure (some t.shapes)
  | .macroCall name parameters =>
    match s.macros[name]? with
    | none => Action.fail (.macroNotDefined name)
    | some m => do
      let shapes ← m.shapes parameters
      pure (some shapes)
  | .unsupported _ => pure none

/-- Draws the layer of an aperture. -/
def defineAperture [Legible α] (s : GraphicsState α) (d : ApertureDefinition α) :
    Action (Composer α) Unit := do
  let id := LayerId.ofAperture d.id
  match ← apertureShapes s d.template with
  | some shapes => revise (.define (.ofItems id (shapes.map .shape)))
  | none => revise (.remove id)

/-- Completes the layer of a block, which must be on top of another one. -/
def endBlock [Legible α] (b : Block α) : Action (Composer α) Unit := do
  let id := LayerId.ofAperture b.id
  let c ← Action.get
  match c.below with
  | [] => Action.fail (.layerNotFound id)
  | parent :: rest =>
    if c.top.id = id then
      Action.modify fun c => { c with top := parent, below := rest }
      revise (.define c.top)
    else Action.fail (.layerNotFound id)

/-- The offsets of the copies of a step-and-repeat, row by row. -/
def offsets (g : Grid α) : List (Point α) :=
  (List.range g.rows).flatMap fun (j : Nat) =>
    (List.range g.columns).map fun (i : Nat) => ⟨g.dx * (i : α), g.dy * (j : α)⟩

/-- Begins the layer that collects the body of a step-and-repeat. -/
def beginStepRepeat : Action (Composer α) Unit := do
  Action.modify fun c => { c with stepRepeats := c.stepRepeats + 1 }
  begin (.stepRepeat (← Action.gets (·.stepRepeats)))

/-- Takes the body of a step-and-repeat off the stack and draws its copies. -/
def endStepRepeat (r : StepRepeat α) : Action (Composer α) Unit := do
  let c ← Action.get
  match c.below with
  | [] => Action.fail (.layerNotFound (.stepRepeat c.stepRepeats))
  | parent :: rest =>
    let top := (offsets r.grid).foldl (fun l offset => l.appendTranslated c.top offset) parent
    Action.modify fun c => { c with top, below := rest }

/-- Pastes the layer of an aperture under the transform in force. A layer that is still being
drawn cannot be pasted. -/
def flash [Legible α] (s : GraphicsState α) (id : ApertureId) (center : Point α) :
    Action (Composer α) Unit := do
  let base := LayerId.ofAperture id
  if ← Action.gets (·.stack.any (·.id == base)) then Action.fail (.cyclicLayer base)
  else
    let source ← onLibrary (Library.variant s.transform base)
    draw (·.push (.paste ⟨source, center, s.transform.polarity⟩))

/-- The callbacks that draw layers. -/
def receiver [Legible α] : Receiver α (Composer α) where
  apertureDefined s d := defineAperture s d
  beginBlock _ b := begin (.ofAperture b.id)
  endBlock _ b := endBlock b
  beginStepRepeat _ _ := beginStepRepeat
  endStepRepeat _ r := endStepRepeat r
  flash s id _ center := flash s id center
  drawLine s segment :=
    stroke s segment fun width => [.line segment.start segment.stop width]
  drawArc s segment direction quadrant :=
    stroke s segment fun width => (segment.spans direction quadrant).map (.arc · width)
  beginRegion _ := Action.modify fun c => { c with contour := some .empty }
  regionLine _ segment := extendContour segment.start [.line segment.stop]
  regionArc _ segment direction quadrant :=
    extendContour segment.start (arcEdges segment.stop (segment.spans direction quadrant))
  flushRegion s := flushContour s
  endRegion s := do
    let result ← (flushContour s).attempt
    Action.modify fun c => { c with contour := none }
    Action.ofExcept result
  endOfFile _ := Action.modify fun c => { c with contour := none }

/-! ### The picture -/

/-- The main layer. -/
def main (c : Composer α) : Layer α := c.below.getLast?.getD c.top

/-- The complete layers together with the main layer. -/
def allLayers (c : Composer α) : LayerTable α := c.layers.insert c.main.id c.main

/-- The picture of the layers. Layers above the main layer were never ended and are dropped. -/
def finish : Action (Composer α) (Picture α) := do
  let c ← Action.get
  if !c.below.isEmpty then Action.warn (.unterminated c.below.length)
  Action.ofExcept (Picture.ofLayers c.allLayers)

end Composer

end Photoplot
