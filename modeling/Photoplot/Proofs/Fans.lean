import Mathlib.Algebra.BigOperators.Intervals
import Photoplot.Geometry.Mesh
import Photoplot.Proofs.EvenOdd

/-!
# Triangle Fans

The fan of an outline consists of the triangles that its first vertex forms with its edges. The two
edges at the first vertex have no triangle, so there are two triangles fewer than vertices. Dents do
not matter here: where the outline turns back, triangles overlap, but then they turn to different
sides and their signed areas cancel. What is left of any fan is the shoelace sum of the outline.

A fan is a mesh, whose triangles are given by the indices of their corners and do not depend on
where the vertices are. So the areas are those of the triangles over any vertices, as many as the
outline has; in particular over the exact vertices, which are not rounded to single precision.

## Area convention

All areas are twice the areas and positive to the left, as in the shoelace sum.

## Main definitions

* `Outline.corner`: a vertex by its index.
* `Mesh.triangleOver`: a triangle of a mesh over given vertices.
* `fanOf`: the triangles of a fan.

## Main results

* `Mesh.exists_corner_iff`: the corners of the triangles of a fan.
* `Mesh.length_triangles_fan_iff`: how many vertices a fan can have.
* `signedArea_eq_sum_fanOf`: the shoelace sum by triangles.
* `Mesh.fan_keeps_signedArea`: what the fan of any outline keeps.
-/

namespace Photoplot

open Outline Finset

/-! ### Outlines by their corners -/

namespace Outline

/-- The vertex with an index. After the last one comes the first one again. -/
noncomputable def corner (vertices : List (Point ℝ)) (k : ℕ) : Point ℝ :=
  vertices.getD k (vertices.headD .origin)

/-- In a list by its indices the successor of the last element is the first one. -/
theorem successors_map_range {β : Type} (f : ℕ → β) (n : ℕ) :
    successors ((List.range n).map f) =
      (List.range n).map fun k => f (if k + 1 < n then k + 1 else 0) := by
  cases n with
  | zero => rfl
  | succ n =>
      have hdrop : ((List.range (n + 1)).map f).drop 1 = (List.range n).map fun k => f (k + 1) := by
        rw [List.range_succ_eq_map, List.map_cons, List.drop_succ_cons, List.drop_zero,
          List.map_map]
        rfl
      have htake : ((List.range (n + 1)).map f).take 1 = [f 0] := by
        rw [List.range_succ_eq_map]
        rfl
      rw [successors, hdrop, htake, List.range_succ, List.map_append, List.map_singleton,
        if_neg (lt_irrefl _)]
      congr 1
      refine List.map_congr_left fun k hk => ?_
      rw [if_pos (Nat.succ_lt_succ (List.mem_range.mp hk))]

/-- The corner after the last one is the first one. -/
theorem corner_length (vertices : List (Point ℝ)) :
    corner vertices vertices.length = corner vertices 0 := by
  cases vertices <;> simp [corner]

/-- A corner is the vertex at its index. -/
theorem corner_eq_getElem {vertices : List (Point ℝ)} {k : ℕ} (h : k < vertices.length) :
    corner vertices k = vertices[k] := by
  rw [corner, List.getD_eq_getElem?_getD, List.getElem?_eq_getElem h, Option.getD_some]

/-- The corners are the vertices. -/
theorem map_corner (vertices : List (Point ℝ)) :
    (List.range vertices.length).map (corner vertices) = vertices := by
  refine List.ext_getElem (by simp) fun k hk hk' => ?_
  rw [List.getElem_map, List.getElem_range, corner_eq_getElem hk']

/-- The successor of a corner is the next one. -/
theorem successors_eq (vertices : List (Point ℝ)) :
    successors vertices = (List.range vertices.length).map fun k => corner vertices (k + 1) := by
  conv_lhs => rw [← map_corner vertices, successors_map_range]
  refine List.map_congr_left fun k hk => ?_
  split
  · rfl
  · have hlast : k + 1 = vertices.length := by
      have := List.mem_range.mp hk
      omega
    rw [hlast, corner_length]

/-- The edges of an outline. -/
theorem zip_successors (vertices : List (Point ℝ)) :
    vertices.zip (successors vertices) =
      (List.range vertices.length).map fun k => (corner vertices k, corner vertices (k + 1)) := by
  conv_lhs => rw [successors_eq]
  conv_lhs =>
    arg 1
    rw [← map_corner vertices]
  rw [List.zip_map']

/-- A sum over a list of indices is one over a range. -/
theorem sum_map_range {M : Type*} [AddCommMonoid M] (f : ℕ → M) (n : ℕ) :
    ((List.range n).map f).sum = ∑ k ∈ range n, f k := rfl

/-- The shoelace sum over the edges. -/
theorem signedArea_eq_sum_map (vertices : List (Point ℝ)) :
    signedArea vertices =
      ((vertices.zip (successors vertices)).map fun e => cross e.1 e.2).sum := by
  rw [signedArea, List.sum_eq_foldl, List.foldl_map, Scalar.zero_real]

/-- The shoelace sum by the corners. -/
theorem signedArea_eq_sum (vertices : List (Point ℝ)) :
    signedArea vertices =
      ∑ k ∈ range vertices.length, cross (corner vertices k) (corner vertices (k + 1)) := by
  rw [signedArea_eq_sum_map, zip_successors, List.map_map, sum_map_range]
  rfl

end Outline

/-! ### The indices of a fan -/

namespace Mesh

/-- The indices of the corners of a triangle. -/
def corners : ℕ × ℕ × ℕ → List ℕ
  | (i, j, k) => [i, j, k]

/-- A triangle by the vertices at its corners. -/
noncomputable def triangleOver (vertices : List (Point ℝ)) : ℕ × ℕ × ℕ → Triangle
  | (i, j, k) => ⟨corner vertices i, corner vertices j, corner vertices k⟩

/-- A fan has two triangles less than vertices. -/
theorem length_fanTriangles (count : ℕ) : (fanTriangles count).length = count - 2 := by
  rw [fanTriangles, List.length_map, List.length_range]

/-- Each triangle of a fan has the first corner and two neighbouring ones. -/
theorem mem_fanTriangles {count : ℕ} {t : ℕ × ℕ × ℕ} :
    t ∈ fanTriangles count ↔ ∃ i < count - 2, t = (0, i + 1, i + 2) := by
  rw [fanTriangles, List.mem_map]
  simp only [List.mem_range, eq_comm]

/-- **The corners** of the triangles of a fan are all vertices, and nothing else. -/
theorem exists_corner_iff {count k : ℕ} (hthree : 3 ≤ count) :
    (∃ t ∈ fanTriangles count, k ∈ corners t) ↔ k < count := by
  constructor
  · rintro ⟨t, ht, hk⟩
    obtain ⟨i, hi, rfl⟩ := mem_fanTriangles.mp ht
    simp only [corners, List.mem_cons, List.not_mem_nil, or_false] at hk
    omega
  · intro hk
    -- The first triangle has the first two vertices, and every later vertex ends a triangle.
    match k with
    | 0 => exact ⟨(0, 1, 2), mem_fanTriangles.mpr ⟨0, by omega, rfl⟩, by simp [corners]⟩
    | 1 => exact ⟨(0, 1, 2), mem_fanTriangles.mpr ⟨0, by omega, rfl⟩, by simp [corners]⟩
    | i + 2 =>
        exact ⟨(0, i + 1, i + 2), mem_fanTriangles.mpr ⟨i, by omega, rfl⟩, by simp [corners]⟩

/-- A fan goes through all vertices if the index of the last one fits in a word. -/
theorem reach_eq_self {count : ℕ} (hpos : 0 < count) (hwords : count ≤ 2 ^ 32) :
    reach count = count := by
  have hlast : count - 1 < 2 ^ 32 := by omega
  rw [reach, Nat.toUInt32_eq, UInt32.toNat_ofNat_of_lt' hlast, Nat.sub_add_cancel hpos]

/-- The indices of a mesh are those of a fan as long as they fit into words. -/
theorem triangles_fan (outline : List (Point Float)) (hwords : outline.length ≤ 2 ^ 32) :
    (fan outline).triangles = fanTriangles outline.length := by
  rw [fan]
  rcases Nat.eq_zero_or_pos outline.length with hnone | hpos
  · rw [hnone]
    rfl
  · rw [reach_eq_self hpos hwords]

/-- **Too many vertices.** A fan has a triangle for every edge that is not at the first vertex
exactly as long as every vertex has an index. -/
theorem length_triangles_fan_iff (outline : List (Point Float)) :
    (fan outline).triangles.length = outline.length - 2 ↔ outline.length ≤ 2 ^ 32 := by
  constructor
  · intro hcount
    have hreach : reach outline.length ≤ 2 ^ 32 := UInt32.toNat_lt _
    rw [fan, length_fanTriangles] at hcount
    omega
  · intro hwords
    rw [triangles_fan outline hwords, length_fanTriangles]

end Mesh

/-! ### The triangles of a fan -/

/-- The triangles of the fan of an outline, however many vertices it has. -/
noncomputable def fanOf (vertices : List (Point ℝ)) : List Triangle :=
  (Mesh.fanTriangles vertices.length).map fun (i, j, k) =>
    ⟨corner vertices i, corner vertices j, corner vertices k⟩

/-- The fan of an outline by its corners. -/
theorem fanOf_eq (vertices : List (Point ℝ)) :
    fanOf vertices = (List.range (vertices.length - 2)).map fun i =>
      ⟨corner vertices 0, corner vertices (i + 1), corner vertices (i + 2)⟩ := by
  rw [fanOf, Mesh.fanTriangles, List.map_map]
  rfl

/-- Each triangle of the fan of an outline has the first corner and two neighbouring ones. -/
theorem mem_fanOf {vertices : List (Point ℝ)} {t : Triangle} :
    t ∈ fanOf vertices ↔ ∃ i ∈ range (vertices.length - 2),
      t = ⟨corner vertices 0, corner vertices (i + 1), corner vertices (i + 2)⟩ := by
  rw [fanOf_eq, List.mem_map]
  simp only [List.mem_range, Finset.mem_range, eq_comm]

/-- The fan as a mesh, over the vertices that it is drawn for. -/
theorem Mesh.map_triangleOver_fan {outline : List (Point Float)} {vertices : List (Point ℝ)}
    (hcount : vertices.length = outline.length) (hwords : outline.length ≤ 2 ^ 32) :
    (fan outline).triangles.map (triangleOver vertices) = fanOf vertices := by
  rw [triangles_fan outline hwords, ← hcount]
  rfl

/-- The first and the last edge of an outline have no triangle, and no share in a sum either. -/
theorem sum_fan {M : Type*} [AddCommMonoid M] {f : ℕ → M} {n : ℕ} (hfirst : f 0 = 0)
    (hlast : f (n - 1) = 0) : ∑ k ∈ range n, f k = ∑ i ∈ range (n - 2), f (i + 1) := by
  match n with
  | 0 => rfl
  | 1 => rw [sum_range_one, hfirst]; rfl
  | n + 2 =>
      have hlast : f (n + 1) = 0 := hlast
      rw [sum_range_succ, sum_range_succ', hlast, hfirst, add_zero, add_zero]
      rfl

/-- **The shoelace sum** adds up the triangles of the fan. -/
theorem signedArea_eq_sum_fanOf (vertices : List (Point ℝ)) :
    Outline.signedArea vertices = ((fanOf vertices).map Triangle.signedArea).sum := by
  have hturn (k : ℕ) : cross (corner vertices k) (corner vertices (k + 1)) =
      turn (corner vertices 0) (corner vertices k) (corner vertices (k + 1)) +
        (cross (corner vertices 0) (corner vertices (k + 1)) -
          cross (corner vertices 0) (corner vertices k)) := by
    rw [turn_eq_cross]
    show _ * _ - _ * _ = (_ - _) * (_ - _) - (_ - _) * (_ - _) + (_ * _ - _ * _ - (_ * _ - _ * _))
    ring
  have hends (k : ℕ) (hk : k = 0 ∨ k + 1 = vertices.length) :
      turn (corner vertices 0) (corner vertices k) (corner vertices (k + 1)) = 0 := by
    rw [turn_eq_cross_left]
    show (_ - _) * (_ - _) - (_ - _) * (_ - _) = (0 : ℝ)
    rcases hk with rfl | hk
    · ring
    · rw [hk, corner_length]
      ring
  rw [signedArea_eq_sum, sum_congr rfl fun k _ => hturn k, sum_add_distrib,
    sum_range_sub fun k => cross (corner vertices 0) (corner vertices k), corner_length, sub_self,
    add_zero, fanOf_eq, List.map_map, sum_map_range]
  exact sum_fan (hends 0 (.inl rfl)) (hends (vertices.length - 1) (by omega))

/-- **The fan of any outline**, convex or not, of at least three vertices that all have an index.
There are two triangles fewer than vertices, their corners are all vertices and nothing else, and
their signed areas over the exact vertices add up to the shoelace sum. -/
theorem Mesh.fan_keeps_signedArea (outline : List (Point Float)) (vertices : List (Point ℝ))
    (hcount : vertices.length = outline.length) (hthree : 3 ≤ outline.length)
    (hwords : outline.length < 2 ^ 32) :
    let mesh := fan outline
    mesh.triangles.length = outline.length - 2 ∧ mesh.vertices.length = outline.length ∧
      (∀ k, (∃ t ∈ mesh.triangles, k ∈ corners t) ↔ k < outline.length) ∧
      (mesh.triangles.map fun t => (triangleOver vertices t).signedArea).sum =
        Outline.signedArea vertices := by
  intro mesh
  have htriangles : mesh.triangles = fanTriangles outline.length := triangles_fan outline hwords.le
  refine ⟨(length_triangles_fan_iff outline).mpr hwords.le, List.length_map _, fun k => ?_, ?_⟩
  · rw [htriangles, exists_corner_iff hthree]
  · rw [signedArea_eq_sum_fanOf, ← map_triangleOver_fan hcount hwords.le, List.map_map]
    rfl

/-- An arrowhead, with a dent at its second vertex. The first triangle of its fan lies outside of it
and turns to the right. -/
theorem Mesh.fan_keeps_signedArea_arrowhead :
    let outline : List (Point Float) := [⟨4, 0⟩, ⟨1, 1⟩, ⟨0, 4⟩, ⟨0, 0⟩]
    let vertices : List (Point ℝ) := [⟨4, 0⟩, ⟨1, 1⟩, ⟨0, 4⟩, ⟨0, 0⟩]
    (vertices.length = outline.length ∧ 3 ≤ outline.length ∧ outline.length < 2 ^ 32) ∧
      (fan outline).triangles.length = 2 ∧ (fan outline).vertices.length = 4 ∧
      (∀ k, (∃ t ∈ (fan outline).triangles, k ∈ corners t) ↔ k < 4) ∧
      ((fan outline).triangles.map fun t => (triangleOver vertices t).signedArea).sum =
        Outline.signedArea vertices ∧
      Outline.signedArea vertices = 8 := by
  intro outline vertices
  obtain ⟨htriangles, hvertices, hcorners, harea⟩ :=
    fan_keeps_signedArea outline vertices rfl (by decide) (by decide)
  refine ⟨⟨rfl, by decide, by decide⟩, htriangles, hvertices, hcorners, harea, ?_⟩
  rw [signedArea_eq_sum_map]
  norm_num [vertices, successors, cross]

end Photoplot
