import Photoplot.Geometry.Outline

/-!
# Triangle Fans

A convex outline is covered by the triangles that its first vertex forms with each of the other
edges.

## Main definitions

* `Mesh`: vertices in single precision, and triangles of their indices.
* `Mesh.reach`: how many vertices the indices of a fan go through.
* `Mesh.fanTriangles`, `Mesh.fan`: the fan of an outline.
-/

namespace Photoplot

/-- Triangles over a list of vertices in single precision. -/
structure Mesh where
  vertices : List (Float32 × Float32)
  triangles : List (Nat × Nat × Nat)

namespace Mesh

/-- The triangles of a fan over `count` vertices. -/
def fanTriangles (count : Nat) : List (Nat × Nat × Nat) :=
  (List.range (count - 2)).map fun i => (0, i + 1, i + 2)

/-- The number of vertices that a fan over `count` vertices goes through. Indices are words of 32
bits, so the last one wraps around when it does not fit. -/
def reach (count : Nat) : Nat := (count - 1).toUInt32.toNat + 1

/-- The fan of an outline. It covers the outline only if that is convex. -/
def fan (vertices : List (Point Float)) : Mesh where
  vertices := vertices.map fun p => (p.x.toFloat32, p.y.toFloat32)
  triangles := fanTriangles (reach vertices.length)

end Mesh

end Photoplot
