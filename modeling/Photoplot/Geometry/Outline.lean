import Photoplot.Geometry.Point

/-!
# Outlines

An outline is the list of the vertices of a closed polygon. The edge from the last vertex back
to the first one is implied.

## Main definitions

* `Outline.signedArea`: the shoelace sum, twice the signed area.
* `Outline.isConvex`: whether the outline never turns against its first turn.
* `Outline.withoutRepeats`: the outline without vertices that repeat the one before.
* `Outline.regular`: the vertices of a regular polygon.
-/

namespace Photoplot.Outline

variable {α : Type} [Scalar α]

/-- The vertices from the one after the first, the first one coming last. -/
def successors {β : Type} (vertices : List β) : List β := vertices.drop 1 ++ vertices.take 1

/-- The cross product of two vectors. -/
def cross (p q : Point α) : α := p.x * q.y - q.x * p.y

/-- The shoelace sum over all edges, in order. It is positive for a counter-clockwise outline. -/
def signedArea (vertices : List (Point α)) : α :=
  (vertices.zip (successors vertices)).foldl (fun sum (p, q) => sum + cross p q) 0

/-- The turn at the second of three points, positive to the left. -/
def turn (p q r : Point α) : α :=
  let v := q - p
  let w := r - q
  v.x * w.y - v.y * w.x

/-- The turns at all vertices, beginning with the second one. -/
def turns (vertices : List (Point α)) : List α :=
  let next := successors vertices
  (vertices.zip (next.zip (successors next))).map fun (p, q, r) => turn p q r

/-- Whether an outline is convex: no turn goes to the right if the first one goes to the left,
and none to the left if it does not. Fewer than three vertices are convex. -/
def isConvex (vertices : List (Point α)) : Bool :=
  if vertices.length < 3 then true
  else
    match turns vertices with
    | [] => true
    | first :: rest =>
      if 0 < first then rest.all fun t => !decide (t < 0)
      else rest.all fun t => !decide (0 < t)

/-! ### Repeated vertices -/

/-- The vertices after `kept` that are kept: those not near the one kept before. The last
vertex of the outline is also dropped when it is near the first, which closes the outline
anyway. -/
def keepDistinct (tolerance : α) (first kept : Point α) : List (Point α) → List (Point α)
  | [] => []
  | [p] => if kept.near tolerance p || first.near tolerance p then [] else [p]
  | p :: rest =>
    if kept.near tolerance p then keepDistinct tolerance first kept rest
    else p :: keepDistinct tolerance first p rest

/-- An outline without the vertices that repeat the one kept before them. When fewer than three
would be left, the outline is returned as it is. -/
def withoutRepeats (tolerance : α) (vertices : List (Point α)) : List (Point α) :=
  match vertices with
  | [] => []
  | first :: rest =>
    let kept := first :: keepDistinct tolerance first first rest
    if kept.length < 3 then vertices else kept

/-! ### Regular polygons -/

/-- The vertices of a regular polygon around the origin, counter-clockwise; the first one lies
at `degrees` on the circle of the given diameter. -/
def regular (diameter : α) (count : Nat) (degrees : α) : List (Point α) :=
  (List.range count).map fun (i : Nat) =>
    Point.polar (diameter / 2)
      (2 * Scalar.pi * (i : α) / (count : α) + Scalar.radians degrees)

end Photoplot.Outline
