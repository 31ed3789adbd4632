import Photoplot.Geometry.Point

/-!
# Arcs

A circular segment is commanded by its end points and the offset of its centre. Resolving it
gives **spans**: a centre, a radius, the angle at which the span starts and the signed angle
through which it sweeps, positive counter-clockwise.

## Quadrant modes

* In **multi-quadrant** mode the offset is signed. A segment that ends where it starts is a
  full circle, resolved into two half circles.
* In **single-quadrant** mode the offset has no signs. Of the four centres that it allows, the
  one is taken whose sweep stays within a quarter turn, and among several the one whose
  distance to the end point differs least from the radius. A segment that ends where it starts
  has no length and no span.

## Main definitions

* `Span`, `Span.points`: a span and the points along it.
* `Segment.spans`: the spans of a commanded segment.
-/

namespace Photoplot

/-- A circular span; angles are in radians. -/
structure Span (α : Type) where
  center : Point α
  radius : α
  startAngle : α
  sweepAngle : α
deriving DecidableEq, Repr

/-- The direction in which an arc is drawn. -/
inductive Direction where
  | clockwise
  | counterClockwise
deriving DecidableEq, Repr

/-- How the centre of an arc is given. -/
inductive Quadrant where
  | single
  | multi
deriving DecidableEq, Repr

/-- The operands of a draw command: its end points, and the offset of the arc centre from the
start. -/
structure Segment (α : Type) where
  start : Point α
  stop : Point α
  offset : Point α
deriving DecidableEq, Repr

variable {α : Type} [Scalar α]

/-! ### Points along an arc -/

namespace Span

/-- Whether a sweep is drawn as a full circle: it is nothing, or a full turn, up to `1e-10`. -/
def isFullCircle (sweepAngle : α) : Bool :=
  Scalar.abs sweepAngle < (1e-10 : α) ||
    Scalar.abs (Scalar.abs sweepAngle - 2 * Scalar.pi) < (1e-10 : α)

/-- The points of an arc around the origin: 32 of them, evenly spaced from the start to the end
of the sweep. A full circle always runs counter-clockwise and has 33 points, of which the last
is the first one again. -/
def sample (radius startAngle sweepAngle : α) : List (Point α) :=
  let point (step : α) (i : Nat) := Point.polar radius (startAngle + step * (i : α))
  if isFullCircle sweepAngle then
    let step := 2 * Scalar.pi / 32
    (List.range 32).map (point step) ++ [point step 0]
  else (List.range 32).map (point (sweepAngle / 31))

/-- The points along a span, from its start to its end. -/
def points (s : Span α) : List (Point α) :=
  (sample s.radius s.startAngle s.sweepAngle).map (s.center + ·)

end Span

/-! ### Resolving segments -/

namespace Segment

/-- End points closer than this are the same point. -/
def coincidence : α := 1e-9

/-- Whether a segment ends where it starts. -/
def isClosed (s : Segment α) : Bool := Point.distance s.start s.stop < coincidence

/-- The sweep from one angle to another. A clockwise sweep is negative and a counter-clockwise
one positive; equal angles are a full turn apart. -/
def sweep (startAngle endAngle : α) (direction : Direction) : α :=
  let delta := endAngle - startAngle
  match direction with
  | .clockwise => if 0 ≤ delta then delta - 2 * Scalar.pi else delta
  | .counterClockwise => if delta ≤ 0 then delta + 2 * Scalar.pi else delta

/-- The span about a centre from the start of a segment in the direction of its end. -/
def spanAbout (s : Segment α) (direction : Direction) (center : Point α) : Span α :=
  let startAngle := center.angleFrom s.start
  { center
    radius := Point.distance s.start center
    startAngle
    sweepAngle := sweep startAngle (center.angleFrom s.stop) direction }

/-- The spans of a segment whose offset is signed. -/
def spansMulti (s : Segment α) (direction : Direction) : List (Span α) :=
  let span := s.spanAbout direction (s.start + s.offset)
  if s.isClosed then
    let half := match direction with
      | .clockwise => -Scalar.pi
      | .counterClockwise => Scalar.pi
    [{ span with sweepAngle := half },
      { span with startAngle := span.startAngle + half, sweepAngle := half }]
  else [span]

/-- The centres that an offset without signs allows. -/
def centers (s : Segment α) : List (Point α) :=
  let dx := Scalar.abs s.offset.x
  let dy := Scalar.abs s.offset.y
  [(1, 1), (1, -1), (-1, 1), (-1, -1)].map fun (sx, sy) => s.start + ⟨dx * sx, dy * sy⟩

/-- A possible span of a segment: whether it stays within a quarter turn, and by how much the
distance from its centre to the end point misses the radius. -/
structure Candidate (α : Type) where
  within : Bool
  error : α
  span : Span α

/-- The candidate with a given centre. -/
def candidate (s : Segment α) (direction : Direction) (center : Point α) : Candidate α :=
  let span := s.spanAbout direction center
  { within := Scalar.abs span.sweepAngle ≤ Scalar.pi / 2 + (1e-9 : α)
    error := Scalar.abs (Point.distance s.stop center - span.radius)
    span }

/-- Whether one candidate is better than another: within the quarter turn against not, and else
by the smaller error, of which one that is not a number is the greatest. -/
def Candidate.better (c d : Candidate α) : Bool :=
  if c.within == d.within then
    c.error < d.error || (Scalar.isNumber c.error && !Scalar.isNumber d.error)
  else c.within

/-- The best of some candidates, the first of several equally good ones. -/
def best : List (Candidate α) → Option (Candidate α)
  | [] => none
  | c :: rest => some (rest.foldl (fun chosen d => if d.better chosen then d else chosen) c)

/-- The span of a segment whose offset has no signs. -/
def spansSingle (s : Segment α) (direction : Direction) : List (Span α) :=
  if s.isClosed then []
  else (best (s.centers.map (s.candidate direction))).toList.map (·.span)

/-- The spans of a segment. -/
def spans (s : Segment α) (direction : Direction) : Quadrant → List (Span α)
  | .single => s.spansSingle direction
  | .multi => s.spansMulti direction

end Segment

end Photoplot
