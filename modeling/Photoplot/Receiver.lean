import Photoplot.GraphicsState

/-!
# Receivers

A program is carried out for a receiver, which is told of everything that makes or places
geometry. A receiver has a state of its own, may warn, and may refuse what it is told by an
error.

The graphics state that a receiver sees already has the effects of the command, except that the
current point moves only after the receiver has agreed.

## Main definitions

* `FlashTarget`: the shape of what is flashed.
* `Receiver`: the callbacks. Each does nothing unless it is given.
* `Route`: the callbacks of draw commands, which are looked up in a table by the modes.
-/

namespace Photoplot

/-- What is flashed: the dimensions of an aperture, or a block. -/
inductive FlashTarget (α : Type) where
  | circle (t : CircleTemplate α)
  | rectangle (t : RectangularTemplate α)
  | obround (t : RectangularTemplate α)
  | polygon (t : PolygonTemplate α)
  | macroCall (name : String) (parameters : List α)
  | block (b : Block α)

namespace FlashTarget

variable {α : Type}

/-- The flash target of an aperture. A template without geometry has none. -/
def ofDefinition (d : ApertureDefinition α) : Except Error (FlashTarget α) :=
  match d.template with
  | .circle t => .ok (.circle t)
  | .rectangle t => .ok (.rectangle t)
  | .obround t => .ok (.obround t)
  | .polygon t => .ok (.polygon t)
  | .macroCall name parameters => .ok (.macroCall name parameters)
  | .unsupported _ => .error (.apertureNotDrawable d.id)

/-- The flash target of what an id stands for. -/
def ofResolved : Resolved α → Except Error (FlashTarget α)
  | .aperture d => ofDefinition d
  | .block b => .ok (.block b)

end FlashTarget

/-- What is told of the geometry of a program. -/
structure Receiver (α σ : Type) where
  apertureDefined : GraphicsState α → ApertureDefinition α → Action σ Unit := fun _ _ => pure ()
  beginBlock : GraphicsState α → Block α → Action σ Unit := fun _ _ => pure ()
  endBlock : GraphicsState α → Block α → Action σ Unit := fun _ _ => pure ()
  beginStepRepeat : GraphicsState α → StepRepeat α → Action σ Unit := fun _ _ => pure ()
  endStepRepeat : GraphicsState α → StepRepeat α → Action σ Unit := fun _ _ => pure ()
  flash : GraphicsState α → ApertureId → FlashTarget α → Point α → Action σ Unit :=
    fun _ _ _ _ => pure ()
  drawLine : GraphicsState α → Segment α → Action σ Unit := fun _ _ => pure ()
  drawArc : GraphicsState α → Segment α → Direction → Quadrant → Action σ Unit :=
    fun _ _ _ _ => pure ()
  beginRegion : GraphicsState α → Action σ Unit := fun _ => pure ()
  regionLine : GraphicsState α → Segment α → Action σ Unit := fun _ _ => pure ()
  regionArc : GraphicsState α → Segment α → Direction → Quadrant → Action σ Unit :=
    fun _ _ _ _ => pure ()
  /-- A move inside of a region ends the contour. -/
  flushRegion : GraphicsState α → Action σ Unit := fun _ => pure ()
  endRegion : GraphicsState α → Action σ Unit := fun _ => pure ()
  /-- Every run ends with this call, however it ends. -/
  endOfFile : GraphicsState α → Action σ Unit := fun _ => pure ()

/-- The callback that a draw command is sent to. -/
inductive Route where
  | drawLine
  | drawArc (direction : Direction) (quadrant : Quadrant)
  | regionLine
  | regionArc (direction : Direction) (quadrant : Quadrant)
deriving DecidableEq, Repr

namespace Route

/-- The routes for all modes: those outside of regions first, for each plot mode that of single
quadrants before that of multiple ones. -/
def table : Vector Route 12 := #v[
  drawLine, drawLine,
  drawArc .clockwise .single, drawArc .clockwise .multi,
  drawArc .counterClockwise .single, drawArc .counterClockwise .multi,
  regionLine, regionLine,
  regionArc .clockwise .single, regionArc .clockwise .multi,
  regionArc .counterClockwise .single, regionArc .counterClockwise .multi]

/-- The place of the plot mode among the three. -/
def modeIndex : PlotMode → Fin 3
  | .linear => 0
  | .circular .clockwise => 1
  | .circular .counterClockwise => 2

/-- The place of the quadrant mode among the two. -/
def quadrantIndex : Quadrant → Fin 2
  | .single => 0
  | .multi => 1

/-- The place of the route for given modes in the table. -/
def index (mode : PlotMode) (quadrant : Quadrant) (inRegion : Bool) : Fin 12 :=
  ⟨inRegion.toNat * 6 + modeIndex mode * 2 + quadrantIndex quadrant, by
    have hregion := inRegion.toNat_le
    omega⟩

/-- The route for given modes. -/
def ofModes (mode : PlotMode) (quadrant : Quadrant) (inRegion : Bool) : Route :=
  table[index mode quadrant inRegion]

/-- Sends a segment along a route. -/
def send {α σ : Type} (r : Receiver α σ) (s : GraphicsState α) (segment : Segment α) :
    Route → Action σ Unit
  | drawLine => r.drawLine s segment
  | drawArc direction quadrant => r.drawArc s segment direction quadrant
  | regionLine => r.regionLine s segment
  | regionArc direction quadrant => r.regionArc s segment direction quadrant

end Route

end Photoplot
