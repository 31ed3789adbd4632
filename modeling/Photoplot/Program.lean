import Photoplot.Aperture.Primitive
import Photoplot.Coordinate
import Photoplot.Transform

/-!
# Programs

A program is a list of nodes. Most nodes are single commands; aperture blocks and
step-and-repeats own the nodes of their bodies, so a program is a tree.

## Main definitions

* `Command`: the commands without a body.
* `Node`: a command, an aperture block or a step-and-repeat.
* `Command.code`, `Node.code`: the command word, by which messages refer to a node.
-/

namespace Photoplot

/-- The unit of lengths. It is recorded and does not change any length. -/
inductive LengthUnit where
  | metric
  | imperial
deriving DecidableEq, Repr

/-- How a draw command gets from the current point to its target. -/
inductive PlotMode where
  | linear
  | circular (direction : Direction)
deriving DecidableEq, Repr

/-- The packed coordinates of an operation; any of them may be left out. -/
structure Coordinates where
  x : Option String
  y : Option String
  i : Option String
  j : Option String
deriving DecidableEq, Repr

/-- Whether all coordinates are left out. -/
def Coordinates.isEmpty (c : Coordinates) : Bool :=
  c.x.isNone && c.y.isNone && c.i.isNone && c.j.isNone

/-- A named attribute. -/
structure Attribute where
  name : String
  values : List String
deriving DecidableEq, Repr

/-- What an attribute belongs to. -/
inductive AttributeKind where
  | aperture
  | file
  | object
deriving DecidableEq, Repr

/-- A command without a body. -/
inductive Command (α : Type) where
  | format (f : CoordinateFormat)
  | unit (u : LengthUnit)
  /-- The unit, given by a deprecated command word. -/
  | legacyUnit (u : LengthUnit)
  | defineAperture (d : ApertureDefinition α)
  | defineMacro (m : ApertureMacro α)
  | selectAperture (id : ApertureId)
  /-- Draws from the current point. -/
  | draw (c : Coordinates)
  /-- Moves the current point. -/
  | move (c : Coordinates)
  /-- Places the current aperture at a point. -/
  | flash (c : Coordinates)
  | plotMode (m : PlotMode)
  | quadrant (q : Quadrant)
  | beginRegion
  | endRegion
  | polarity (p : Polarity)
  | mirroring (m : Mirroring)
  | rotation (degrees : α)
  | scale (factor : α)
  | attribute (kind : AttributeKind) (a : Attribute)
  /-- Deletes one attribute by name, or all those of apertures and objects. -/
  | deleteAttribute (name : Option String)
  | comment (text : String)
  | stop
  | optionalStop
  | endOfFile

/-- The grid of a step-and-repeat: copies along both axes and the distance between them. -/
structure Grid (α : Type) where
  columns : Nat
  rows : Nat
  dx : α
  dy : α
deriving DecidableEq, Repr

/-- A node of a program. -/
inductive Node (α : Type) where
  | command (c : Command α)
  /-- Nodes that together define an aperture. -/
  | block (id : ApertureId) (body : List (Node α))
  /-- Nodes whose image is repeated on a grid. -/
  | stepRepeat (grid : Grid α) (body : List (Node α))

/-- An aperture block. -/
structure Block (α : Type) where
  id : ApertureId
  body : List (Node α)

/-- A step-and-repeat. -/
structure StepRepeat (α : Type) where
  grid : Grid α
  body : List (Node α)

variable {α : Type}

/-- The command word of a command. -/
def Command.code : Command α → String
  | format _ => "FS"
  | unit _ => "MO"
  | legacyUnit .imperial => "G70"
  | legacyUnit .metric => "G71"
  | defineAperture _ => "AD"
  | defineMacro _ => "AM"
  | selectAperture _ => "Dnn"
  | draw _ => "D01"
  | move _ => "D02"
  | flash _ => "D03"
  | plotMode .linear => "G01"
  | plotMode (.circular .clockwise) => "G02"
  | plotMode (.circular .counterClockwise) => "G03"
  | quadrant .single => "G74"
  | quadrant .multi => "G75"
  | beginRegion => "G36"
  | endRegion => "G37"
  | polarity _ => "LP"
  | mirroring _ => "LM"
  | rotation _ => "LR"
  | scale _ => "LS"
  | .attribute .aperture _ => "TA"
  | .attribute .file _ => "TF"
  | .attribute .object _ => "TO"
  | deleteAttribute _ => "TD"
  | comment _ => "G04"
  | stop => "M00"
  | optionalStop => "M01"
  | endOfFile => "M02"

/-- The command word of a node. -/
def Node.code : Node α → String
  | command c => c.code
  | block .. => "AB"
  | stepRepeat .. => "SR"

end Photoplot
