import Photoplot.Coordinate.Packed
import Photoplot.Program

/-!
# The Graphics State

What the commands of a program have set so far: units, modes, the current point, the selected
aperture, the transform, and everything that was defined under a name.

## Rules

* The coordinate format may be repeated at any time. It may be changed only until a coordinate
  has been read.
* The coordinates of an operation are first read into `pending` and become the current point
  when the operation is done.
* An aperture id names an aperture or a block, whichever was defined last. The aperture
  attributes that are set at that time are kept with it.

## Main definitions

* `GraphicsState`.
* `GraphicsState.setFormat`, `load`, `target`, `commit`: the current point.
* `GraphicsState.defineAperture`, `defineBlock`, `defineMacro`, `resolve`: definitions.
* `GraphicsState.setAttribute`, `deleteAttribute`, `attributesOf`: attributes.
-/

namespace Photoplot

/-- The coordinates of the operation at hand. -/
structure Pending (α : Type) where
  x : Option α := none
  y : Option α := none
  i : Option α := none
  j : Option α := none
deriving DecidableEq, Repr

/-- Attributes by name. -/
abbrev AttributeTable := Std.TreeMap String Attribute

/-- The attributes that are set. -/
structure Attributes where
  aperture : AttributeTable := ∅
  file : AttributeTable := ∅
  object : AttributeTable := ∅

/-- The table of the attributes of one kind. -/
def Attributes.table (a : Attributes) : AttributeKind → AttributeTable
  | .aperture => a.aperture
  | .file => a.file
  | .object => a.object

/-- Sets an attribute of one kind. -/
def Attributes.insert (a : Attributes) (kind : AttributeKind) (entry : Attribute) :
    Attributes :=
  match kind with
  | .aperture => { a with aperture := a.aperture.insert entry.name entry }
  | .file => { a with file := a.file.insert entry.name entry }
  | .object => { a with object := a.object.insert entry.name entry }

/-- Deletes an attribute by its name, whatever its kind. -/
def Attributes.erase (a : Attributes) (name : String) : Attributes where
  aperture := a.aperture.erase name
  file := a.file.erase name
  object := a.object.erase name

/-- Deletes the attributes of apertures and objects. Those of the file stay. -/
def Attributes.clear (a : Attributes) : Attributes := { a with aperture := ∅, object := ∅ }

/-- What an aperture id stands for. -/
inductive Resolved (α : Type) where
  | aperture (d : ApertureDefinition α)
  | block (b : Block α)

/-- The id under which an aperture or a block was defined. -/
def Resolved.id {α : Type} : Resolved α → ApertureId
  | aperture d => d.id
  | block b => b.id

/-- What the commands so far have set. -/
structure GraphicsState (α : Type) where
  unit : LengthUnit
  format : Option CoordinateFormat
  /-- Whether a coordinate has been read with the format. -/
  formatInUse : Bool
  plotMode : PlotMode
  quadrant : Quadrant
  /-- The current point. -/
  position : Point α
  pending : Pending α
  selected : Option ApertureId
  transform : Transform α
  apertures : Std.TreeMap ApertureId (ApertureDefinition α)
  blocks : Std.TreeMap ApertureId (Block α)
  macros : Std.TreeMap String (ApertureMacro α)
  attributes : Attributes
  /-- The aperture attributes that were set when an id was defined. -/
  snapshots : Std.TreeMap ApertureId AttributeTable
  inRegion : Bool

namespace GraphicsState

variable {α : Type} [Scalar α]

/-- The state before the first command. -/
def initial : GraphicsState α where
  unit := .metric
  format := none
  formatInUse := false
  plotMode := .linear
  quadrant := .multi
  position := .origin
  pending := {}
  selected := none
  transform := .initial
  apertures := ∅
  blocks := ∅
  macros := ∅
  attributes := {}
  snapshots := ∅
  inRegion := false

/-! ### Coordinates -/

/-- Sets the coordinate format, unless that changes a format that is in use. -/
def setFormat (f : CoordinateFormat) : Action (GraphicsState α) Unit := do
  let s ← Action.get
  if s.formatInUse && s.format != some f then Action.fail .formatRedefined
  else Action.modify fun s => { s with format := some f }

/-- Reads one coordinate, if it is given. -/
def unpackAxis (f : CoordinateFormat) (axis : Axis) :
    Option String → Except CoordinateError (Option α)
  | none => .ok none
  | some raw => (f.unpack axis raw).map some

/-- Reads the coordinates of an operation, in the order of the axes. -/
def unpackAll (f : CoordinateFormat) (c : Coordinates) : Except CoordinateError (Pending α) := do
  let x ← unpackAxis f .x c.x
  let y ← unpackAxis f .y c.y
  let i ← unpackAxis f .i c.i
  let j ← unpackAxis f .j c.j
  pure { x, y, i, j }

/-- Reads the coordinates of an operation into `pending`, which is emptied first. An operation
without coordinates needs no format. -/
def load (c : Coordinates) : Action (GraphicsState α) Unit := do
  Action.modify fun s => { s with pending := {} }
  if c.isEmpty then pure ()
  else
    let s ← Action.get
    match s.format with
    | none => Action.fail .formatNotSet
    | some f =>
      let pending ← Action.ofExcept ((unpackAll f c).mapError .coordinate)
      Action.modify fun s => { s with pending, formatInUse := true }

/-- Whether coordinates are steps from the current point. -/
def isIncremental (s : GraphicsState α) : Bool :=
  match s.format with
  | some f => f.mode == .incremental
  | none => false

/-- The point that the pending coordinates lead to. An axis without coordinate stays. -/
def target (s : GraphicsState α) : Point α :=
  if s.isIncremental then
    ⟨s.position.x + s.pending.x.getD 0, s.position.y + s.pending.y.getD 0⟩
  else ⟨s.pending.x.getD s.position.x, s.pending.y.getD s.position.y⟩

/-- The pending offset of an arc centre, zero where it is not given. -/
def arcOffset (s : GraphicsState α) : Point α := ⟨s.pending.i.getD 0, s.pending.j.getD 0⟩

/-- The segment from the current point to the target. -/
def segment (s : GraphicsState α) : Segment α := ⟨s.position, s.target, s.arcOffset⟩

/-- Moves the current point to the target. -/
def commit (s : GraphicsState α) : GraphicsState α :=
  { s with position := s.target, pending := {} }

/-! ### Definitions -/

/-- Defines an aperture. A macro must have been defined before the apertures that use it. -/
def defineAperture (d : ApertureDefinition α) : Action (GraphicsState α) Unit := do
  let s ← Action.get
  match d.template with
  | .macroCall name _ =>
    if s.macros.contains name then pure () else Action.fail (.macroNotDefined name)
  | _ => pure ()
  Action.modify fun s =>
    { s with
      blocks := s.blocks.erase d.id
      apertures := s.apertures.insert d.id d
      snapshots := s.snapshots.insert d.id s.attributes.aperture }

/-- Defines an aperture block. -/
def defineBlock (b : Block α) (s : GraphicsState α) : GraphicsState α :=
  { s with
    apertures := s.apertures.erase b.id
    blocks := s.blocks.insert b.id b
    snapshots := s.snapshots.insert b.id s.attributes.aperture }

/-- Defines a macro. -/
def defineMacro (m : ApertureMacro α) (s : GraphicsState α) : GraphicsState α :=
  { s with macros := s.macros.insert m.name m }

/-- What an aperture id stands for. -/
def resolve (s : GraphicsState α) (id : ApertureId) : Except Error (Resolved α) :=
  match s.apertures[id]? with
  | some d => .ok (.aperture d)
  | none =>
    match s.blocks[id]? with
    | some b => .ok (.block b)
    | none => .error (.apertureNotFound id)

/-- What the selected aperture id stands for. -/
def current (s : GraphicsState α) : Except Error (Resolved α) :=
  match s.selected with
  | none => .error .apertureNotSelected
  | some id => s.resolve id

/-! ### Attributes -/

/-- Sets an attribute. -/
def setAttribute (kind : AttributeKind) (a : Attribute) (s : GraphicsState α) :
    GraphicsState α :=
  { s with attributes := s.attributes.insert kind a }

/-- Deletes one attribute by name, or all those of apertures and objects. -/
def deleteAttribute (name : Option String) (s : GraphicsState α) : GraphicsState α :=
  { s with
    attributes := match name with
      | none => s.attributes.clear
      | some name => s.attributes.erase name }

/-- The aperture attributes that were set when an id was last defined. -/
def attributesOf (s : GraphicsState α) (id : ApertureId) : Option AttributeTable :=
  s.snapshots[id]?

end GraphicsState

end Photoplot
