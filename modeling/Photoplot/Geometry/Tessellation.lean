import Photoplot.Geometry.Coverage
import Photoplot.Geometry.Mesh
import Photoplot.Geometry.Shape
import Photoplot.Scalar.Double

/-!
# Tessellation

A polygon is filled by the **even-odd rule**. A convex outline needs no more than its triangle
fan. The triangles of any other outline are made by a tessellator outside of this library. They are
left open, and `Coverage.area?` stands for what it gives: only the area that they cover, which the
rule alone determines. Theorems are about fans only.

## Main definitions

* `Tessellation.ofOutline`: how an outline is covered.
* `Geometry.tessellation?`: how a geometry is covered, if it is a polygon.
-/

namespace Photoplot

/-- What covers the inside of an outline. -/
inductive Tessellation where
  /-- The triangle fan of a convex outline. -/
  | fan (mesh : Mesh)
  /-- Triangles whose areas add up to a given one. There is none for an outline with a vertex
  that has no place in single precision. -/
  | covered (area : Option Rat)

/-- How an outline is covered. -/
def Tessellation.ofOutline (vertices : List (Point Float)) : Tessellation :=
  if Outline.isConvex vertices then .fan (.fan vertices)
  else .covered (Coverage.area? vertices)

/-- How a geometry is covered. Only polygons are made of triangles. -/
def Geometry.tessellation? : Geometry Float → Option Tessellation
  | .polygon vertices => some (.ofOutline vertices)
  | _ => none

end Photoplot
