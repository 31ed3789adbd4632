import Photoplot.Action
import Photoplot.Geometry.Outline
import Photoplot.Geometry.Shape

/-!
# Contours

The boundary of a region is drawn edge by edge. When the contour is closed, its edges become
the vertices of a polygon; a contour without area is passed over with a warning.

## Main definitions

* `Edge`, `Contour`, `Contour.push`.
* `Contour.vertices`: the vertices before repeated ones are removed.
* `Contour.close`: the vertices of the polygon, if there is something to fill.
* `Contour.fill`: the polygon itself, of positive orientation.
-/

namespace Photoplot

/-- An edge of a contour, up to its end. -/
inductive Edge (α : Type) where
  | line (stop : Point α)
  | arc (span : Span α) (stop : Point α)
deriving DecidableEq, Repr

/-- The edges drawn so far. The first of them fixes the start. -/
structure Contour (α : Type) where
  start : Option (Point α)
  edges : Array (Edge α)
  edges_eq_empty : start = none → edges = #[]

namespace Contour

variable {α : Type}

/-- The contour without edges. -/
def empty : Contour α := ⟨none, #[], fun _ => rfl⟩

/-- Adds an edge that begins at `start`. -/
def push (c : Contour α) (start : Point α) (edge : Edge α) : Contour α where
  start := if c.edges.isEmpty then some start else c.start
  edges := c.edges.push edge
  edges_eq_empty hstart := by
    split at hstart
    · cases hstart
    · rename_i hedges
      exact absurd (by rw [c.edges_eq_empty hstart]; rfl) hedges

/-- The first edge fixes the start. -/
theorem start_push (c : Contour α) (start : Point α) (edge : Edge α) :
    (c.push start edge).start = if c.edges.isEmpty then some start else c.start := rfl

variable [Scalar α]

/-- The vertices that an edge adds. The last point along an arc is replaced by the end that was
commanded, from which it may differ by rounding. -/
def edgeVertices : Edge α → List (Point α)
  | .line stop => [stop]
  | .arc span stop => (span.points.drop 1).dropLast ++ [stop]

/-- The vertices of a contour with a given start. -/
def vertices (start : Point α) (edges : Array (Edge α)) : List (Point α) :=
  start :: edges.toList.flatMap edgeVertices

/-- Whether an outline has too few vertices, or too little area, to be filled. -/
def isDegenerate (outline : List (Point α)) : Bool :=
  outline.length < 3 || Scalar.abs (Outline.signedArea outline) < (1e-12 : α)

/-- Takes the vertices of the polygon that a contour bounds. A contour without a start is left as it
is, which is empty as well (`Contour.state_close`). -/
def close : Action (Contour α) (Option (List (Point α))) := do
  let c ← Action.get
  match c.start with
  | none => pure none
  | some start => do
    Action.modify fun _ => empty
    if c.edges.isEmpty then pure none
    else
      let outline := Outline.withoutRepeats (1e-6 : α) (vertices start c.edges)
      if isDegenerate outline then
        Action.warn .degenerateContour
        pure none
      else pure (some outline)

/-- The polygon of an outline, which is reversed unless its signed area is positive. -/
def fill (outline : List (Point α)) (polarity : Polarity) : Shape α :=
  ⟨.polygon (if 0 < Outline.signedArea outline then outline else outline.reverse), polarity⟩

end Contour

end Photoplot
