import Photoplot.Geometry.Point

/-!
# Bounding Boxes

A bounding box grows from the empty box by joining, which takes the least and the greatest
coordinates. The **empty box** is inside out: its least corner lies at the end of the range of
coordinates and its greatest corner at the beginning, so that joining it to a box within the range
changes nothing, and a box that reaches beyond the range is cut off. A box of one point is not
empty.

Coordinates without an end have no such corner, and the empty box has to be told apart. Within the
range this makes no difference.

## Main definitions

* `Bounds.empty`, `Bounds.merge`, `Bounds.join`, `Bounds.ofPoints`, `Bounds.around`: how boxes are
  made.
* `Bounds.translate`: a box moved by an offset; the empty box stays where it is.
* `Bounds.corners`: the corners as a closed path.

## Main results

* `Bounds.join_eq_merge_of_isLimited`, `Bounds.ofPoints_eq_foldl_merge`: where the range has an end,
  boxes are made from the empty one by taking least and greatest coordinates only.
-/

namespace Photoplot

/-- An axis-aligned box, from its least to its greatest corner. -/
structure Bounds (α : Type) where
  min : Point α
  max : Point α
deriving DecidableEq, Repr

namespace Bounds

variable {α : Type} [Scalar α]

/-- The box that holds nothing. -/
def empty : Bounds α where
  min := ⟨Scalar.largest, Scalar.largest⟩
  max := ⟨-Scalar.largest, -Scalar.largest⟩

/-- Only the empty box itself is empty, not every box without area. -/
def isEmpty (b : Bounds α) : Bool :=
  b.min.x == Scalar.largest && b.min.y == Scalar.largest &&
    b.max.x == -Scalar.largest && b.max.y == -Scalar.largest

/-- The least coordinates of two boxes, and the greatest ones. -/
def merge (b c : Bounds α) : Bounds α where
  min := ⟨Scalar.lesser b.min.x c.min.x, Scalar.lesser b.min.y c.min.y⟩
  max := ⟨Scalar.greater b.max.x c.max.x, Scalar.greater b.max.y c.max.y⟩

/-- The least box around two boxes. The empty box gives way to any other one, which it does by its
corners where the range of coordinates has an end. -/
def join (b c : Bounds α) : Bounds α :=
  if Scalar.isLimited α then b.merge c
  else if b.isEmpty then c
  else if c.isEmpty then b
  else b.merge c

/-- The box of one point. -/
def ofPoint (p : Point α) : Bounds α := ⟨p, p⟩

/-- The least box around some points. -/
def ofPoints (points : List (Point α)) : Bounds α :=
  points.foldl (fun b p => b.join (ofPoint p)) empty

/-- Where the range of coordinates has an end, two boxes are joined by their coordinates alone. -/
theorem join_eq_merge_of_isLimited (h : Scalar.isLimited α) (b c : Bounds α) :
    b.join c = b.merge c :=
  if_pos h

/-- Where the range of coordinates has an end, the box of some points is found from the empty one by
the coordinates alone. -/
theorem ofPoints_eq_foldl_merge (h : Scalar.isLimited α) (points : List (Point α)) :
    ofPoints points = points.foldl (fun b p => b.merge (ofPoint p)) empty := by
  simp only [ofPoints, join_eq_merge_of_isLimited h]

/-- The square of a given size around a point. -/
def around (center : Point α) (size : α) : Bounds α :=
  let half := size / 2
  ⟨⟨center.x - half, center.y - half⟩, ⟨center.x + half, center.y + half⟩⟩

/-- The box from a corner to the one that lies `width` and `height` away. -/
def ofSize (origin : Point α) (width height : α) : Bounds α :=
  ⟨origin, ⟨origin.x + width, origin.y + height⟩⟩

/-- The extent along the first axis. -/
def width (b : Bounds α) : α := b.max.x - b.min.x

/-- The extent along the second axis. -/
def height (b : Bounds α) : α := b.max.y - b.min.y

/-- The middle of a box. -/
def center (b : Bounds α) : Point α :=
  ⟨(b.min.x + b.max.x) / 2, (b.min.y + b.max.y) / 2⟩

/-- A box moved by an offset. -/
def translate (b : Bounds α) (offset : Point α) : Bounds α :=
  if b.isEmpty then b else ⟨b.min + offset, b.max + offset⟩

/-- The four corners, counter-clockwise from the least. -/
def corners (b : Bounds α) : List (Point α) :=
  [⟨b.min.x, b.min.y⟩, ⟨b.max.x, b.min.y⟩, ⟨b.max.x, b.max.y⟩, ⟨b.min.x, b.max.y⟩]

end Bounds

end Photoplot
