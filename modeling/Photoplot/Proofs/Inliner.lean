import Photoplot.Compile

/-!
# Drawing by Inlining

What a program draws can be said without any layers. A flash draws the shapes of the aperture
itself, each of them transformed and then moved to the flash point, and the end of a
step-and-repeat draws copies of the shapes of its body. There are no pastes, no variants and
nothing to look up, except what a flash has to know: the shapes of the apertures and blocks.

A picture says the same once its pastes are followed: a paste stands for what the pasted layer
draws, moved to the centre of the paste.

## Polarity convention

A paste keeps the polarities of what it pastes and has one of its own. So a **placed shape** has,
besides the polarity that it is drawn with, those of the pastes on the way to it, the outermost
first. A flash that is inlined leaves its polarity in the same place.

## Main definitions

* `PlacedShape`: a shape in its place, with the polarities on the way to it.
* `Inliner`, `Inliner.receiver`: the callbacks that inline.
* `inline`: what a program draws.
* `Picture.Flattens`: what a picture draws.

## Main results

* `Picture.Flattens.unique`: a picture draws one thing only.
-/

namespace Photoplot

/-! ### Placed shapes -/

/-- A shape in its place, with the polarities that it is pasted with, the outermost first. -/
structure PlacedShape (α : Type) where
  polarities : List Polarity
  shape : Shape α

namespace PlacedShape

variable {α : Type}

/-- A shape that is drawn and not pasted. -/
def drawn (s : Shape α) : PlacedShape α := ⟨[], s⟩

/-- A placed shape that is changed where it is. -/
def reshape (f : Shape α → Shape α) (x : PlacedShape α) : PlacedShape α :=
  { x with shape := f x.shape }

variable [Scalar α]

/-- A placed shape moved by an offset. -/
def translate (offset : Point α) (x : PlacedShape α) : PlacedShape α :=
  x.reshape (·.translate offset)

/-- A placed shape of a layer, where the layer is pasted. -/
def pasted (polarity : Polarity) (center : Point α) (x : PlacedShape α) : PlacedShape α :=
  ⟨polarity :: x.polarities, x.shape.translate center⟩

end PlacedShape

/-- A shape under the geometric part of a transform. An identity transform is not applied. -/
def Transform.reshape {α : Type} [Scalar α] (t : Transform α) (s : Shape α) : Shape α :=
  if t.isIdentity then s else t.applyShape s

/-! ### Inlining -/

/-- What the apertures and blocks look like, and what is drawn. -/
structure Inliner (α : Type) where
  images : Std.TreeMap ApertureId (List (PlacedShape α))
  /-- The shapes of the body that is drawn into. -/
  top : List (PlacedShape α)
  /-- The shapes of the bodies around it, the image itself last. -/
  below : List (List (PlacedShape α))
  contour : Option (Contour α)

namespace Inliner

variable {α : Type}

/-- The inliner before the first command. -/
def initial : Inliner α where
  images := ∅
  top := []
  below := []
  contour := none

/-- The image itself. -/
def image (i : Inliner α) : List (PlacedShape α) := i.below.getLast?.getD i.top

/-- Draws shapes. -/
def draw (shapes : List (PlacedShape α)) : Action (Inliner α) Unit :=
  Action.modify fun i => { i with top := i.top ++ shapes }

/-- Begins a body. -/
def begin : Action (Inliner α) Unit :=
  Action.modify fun i => { i with top := [], below := i.top :: i.below }

/-- Completes the image of a block. -/
def endBlock (b : Block α) : Action (Inliner α) Unit := do
  let i ← Action.get
  match i.below with
  | [] => Action.fail (.layerNotFound (.ofAperture b.id))
  | parent :: rest =>
    Action.modify fun i =>
      { i with top := parent, below := rest, images := i.images.insert b.id i.top }

variable [Scalar α]

/-- Defines the image of an aperture; a template without geometry has none. -/
def defineAperture (s : GraphicsState α) (d : ApertureDefinition α) :
    Action (Inliner α) Unit := do
  match ← Composer.apertureShapes s d.template with
  | some shapes =>
    Action.modify fun i => { i with images := i.images.insert d.id (shapes.map .drawn) }
  | none => Action.modify fun i => { i with images := i.images.erase d.id }

/-- Draws the copies of the body of a step-and-repeat. -/
def endStepRepeat (r : StepRepeat α) : Action (Inliner α) Unit := do
  let i ← Action.get
  match i.below with
  | [] => Action.fail (.layerNotFound .main)
  | parent :: rest =>
    let copies := (Composer.offsets r.grid).flatMap fun offset => i.top.map (.translate offset)
    Action.modify fun i => { i with top := parent ++ copies, below := rest }

/-- Draws the image of an aperture, reshaped by the transform in force and then moved. -/
def flash (reshape : Transform α → Shape α → Shape α) (s : GraphicsState α) (id : ApertureId)
    (center : Point α) : Action (Inliner α) Unit := do
  match ← Action.gets (·.images[id]?) with
  | none => Action.fail (.layerNotFound (.ofAperture id))
  | some image =>
    let reshaped := image.map (.reshape (reshape s.transform))
    draw (reshaped.map (.pasted s.transform.polarity center))

/-- Draws a stroke with the selected aperture, if it has one. -/
def stroke (s : GraphicsState α) (segment : Segment α) (strokes : α → List (Geometry α)) :
    Action (Inliner α) Unit := do
  match ← Composer.strokeWidth s segment.start segment.stop with
  | none => pure ()
  | some width =>
    let shapes := Composer.strokeShapes segment width (strokes width) s.transform.polarity
    draw (shapes.map .drawn)

/-- Adds edges to the open contour. -/
def extendContour (start : Point α) (edges : List (Edge α)) : Action (Inliner α) Unit := do
  if ← Action.gets (·.contour.isNone) then Action.fail .contourNotOpen
  else
    let extend (contour : Contour α) : Contour α :=
      edges.foldl (fun contour edge => contour.push start edge) contour
    Action.modify fun i => { i with contour := i.contour.map extend }

/-- Closes the open contour and draws the polygon that it bounds. -/
def flushContour (s : GraphicsState α) : Action (Inliner α) Unit := do
  match ← Action.gets (·.contour) with
  | none => Action.fail .contourNotOpen
  | some contour =>
    let outline ← Action.inside contour Contour.close
    Action.modify fun i => { i with contour := some .empty }
    match outline with
    | none => pure ()
    | some outline => draw [.drawn (Contour.fill outline s.transform.polarity)]

/-- The callbacks that inline. How a transform changes a shape is left open. -/
def receiver (reshape : Transform α → Shape α → Shape α) : Receiver α (Inliner α) where
  apertureDefined s d := defineAperture s d
  beginBlock _ _ := begin
  endBlock _ b := endBlock b
  beginStepRepeat _ _ := begin
  endStepRepeat _ r := endStepRepeat r
  flash s id _ center := flash reshape s id center
  drawLine s segment :=
    stroke s segment fun width => [.line segment.start segment.stop width]
  drawArc s segment direction quadrant :=
    stroke s segment fun width => (segment.spans direction quadrant).map (.arc · width)
  beginRegion _ := Action.modify fun i => { i with contour := some .empty }
  regionLine _ segment := extendContour segment.start [.line segment.stop]
  regionArc _ segment direction quadrant :=
    extendContour segment.start (Composer.arcEdges segment.stop (segment.spans direction quadrant))
  flushRegion s := flushContour s
  endRegion s := do
    let result ← (flushContour s).attempt
    Action.modify fun i => { i with contour := none }
    Action.ofExcept result
  endOfFile _ := Action.modify fun i => { i with contour := none }

end Inliner

/-- What a program draws when it is run and inlined. -/
def inline {α : Type} [Scalar α] (reshape : Transform α → Shape α → Shape α) (options : Options)
    (nodes : List (Node α)) : Action Unit (List (PlacedShape α)) :=
  Action.inside (Machine.initial Inliner.initial) do
    Machine.run (Inliner.receiver reshape) options nodes
    let m ← Action.get
    pure m.receiver.image

/-! ### Flattening -/

namespace Picture

variable {α : Type} [Scalar α] {p : Picture α}

/-- **Flattening.** Commands of a picture draw placed shapes when every paste is replaced by what
the pasted layer draws. -/
inductive Flattens (p : Picture α) : List (DrawCommand α) → List (PlacedShape α) → Prop where
  | nil : Flattens p [] []
  | shape {s : Shape α} {rest : List (DrawCommand α)} {placed : List (PlacedShape α)} :
      Flattens p rest placed → Flattens p (.shape s :: rest) (.drawn s :: placed)
  | paste {q : Paste α} {source rest : List (DrawCommand α)} {inner placed : List (PlacedShape α)} :
      p.layer? q.source = some source → Flattens p source inner → Flattens p rest placed →
      Flattens p (.paste q :: rest) (inner.map (.pasted q.polarity q.center) ++ placed)

/-- Commands draw one thing only. -/
theorem Flattens.unique {commands : List (DrawCommand α)} {placed placed' : List (PlacedShape α)}
    (h : p.Flattens commands placed) (h' : p.Flattens commands placed') : placed = placed' := by
  induction h generalizing placed' with
  | nil =>
      cases h'
      rfl
  | shape _ ih =>
      cases h' with
      | shape hrest => rw [ih hrest]
  | paste hsource _ _ ihinner ihrest =>
      cases h' with
      | paste hsource' hinner hrest =>
          obtain rfl := Option.some.inj (hsource.symm.trans hsource')
          rw [ihinner hinner, ihrest hrest]

end Picture

end Photoplot
