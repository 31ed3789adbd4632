import Mathlib.Analysis.SpecialFunctions.Trigonometric.Complex
import Photoplot.Composer
import Photoplot.Proofs.Sweeps

/-!
# The Widths of Strokes

A stroke with a rectangle is as wide as the rectangle is across the stroke, under the transform in
force. This module compares that width with the shape that a flash of the same aperture pastes: it
is the extent of the corners of that shape across the stroke. The shape may be a polygon, whose
vertices are the transformed corners, or under quarter turns a rectangle again, which is built anew
from the bounding box of the transformed corners and has the same corners in another order.

Everything here is about the real numbers, also for rectangles and scales of negative size.

## Main definitions

* `IsExtent`: the extent of some points along a direction.
* `IsAcross`: a unit vector across a segment.
* `Bounds.TightAround`: a box that leaves no room around some points.
* `Geometry.corners`: the corners of a rectangle or a polygon.

## Main results

* `Composer.isExtent_extentAlong`: the extent that is computed is the extent.
* `Bounds.mem_corners_ofPoints`: points that are the corners of a box have these corners.
* `Transform.exists_axes`: quarter turns take a rectangle around the origin to another one.
* `Composer.strokeWidth_rectangle`: strokes are as wide as flashes.
-/

namespace Photoplot

open Real

/-! ### Extents -/

/-- Values have extremes if there are any, and these are the least and the greatest of them. -/
theorem Scalar.extremes_spec {values : List ℝ} (h : values ≠ []) : ∃ least greatest,
    extremes values = some (least, greatest) ∧ IsLeast {v | v ∈ values} least ∧
      IsGreatest {v | v ∈ values} greatest := by
  induction values with
  | nil => exact absurd rfl h
  | cons v rest ih =>
      by_cases hrest : rest = []
      · have hsingle : {w | w ∈ [v]} = {v} := Set.ext fun w => List.mem_singleton
        rw [hrest, hsingle]
        exact ⟨v, v, if_pos (isNumber_real v), isLeast_singleton, isGreatest_singleton⟩
      · obtain ⟨least, greatest, hextremes, hleast, hgreatest⟩ := ih hrest
        have hcons : {w | w ∈ v :: rest} = insert v {w | w ∈ rest} := Set.ext fun w => List.mem_cons
        rw [hcons, extremes, hextremes]
        refine ⟨min v least, max v greatest, ?_, hleast.insert v, hgreatest.insert v⟩
        rw [← lesser_eq_min, ← greater_eq_max]

/-- How far a point lies in a direction. -/
def Point.along (direction p : Point ℝ) : ℝ := p.x * direction.x + p.y * direction.y

/-- The **extent** of some points along a direction: the distance from the first to the last of
them. -/
def IsExtent (direction : Point ℝ) (points : List (Point ℝ)) (extent : ℝ) : Prop :=
  ∃ least greatest, IsLeast (direction.along '' {p | p ∈ points}) least ∧
    IsGreatest (direction.along '' {p | p ∈ points}) greatest ∧ extent = greatest - least

section

variable {direction : Direction} {n m start stop : Point ℝ} {points others : List (Point ℝ)}
  {extent other : ℝ}

/-- There is one extent. -/
theorem IsExtent.unique (h : IsExtent n points extent) (hother : IsExtent n points other) :
    extent = other := by
  obtain ⟨least, greatest, hleast, hgreatest, rfl⟩ := h
  obtain ⟨least', greatest', hleast', hgreatest', rfl⟩ := hother
  rw [hleast.unique hleast', hgreatest.unique hgreatest']

/-- The order of the points does not matter. -/
theorem IsExtent.congr (h : IsExtent n points extent) (hsame : ∀ p, p ∈ others ↔ p ∈ points) :
    IsExtent n others extent := by
  rw [IsExtent, show {p | p ∈ others} = {p | p ∈ points} from Set.ext hsame]
  exact h

/-- Seen from the other side the first point is the last one. -/
theorem IsExtent.neg (h : IsExtent n points extent) :
    IsExtent ⟨-n.x, -n.y⟩ points extent := by
  obtain ⟨least, greatest, hleast, hgreatest, rfl⟩ := h
  have halong (p : Point ℝ) : Point.along ⟨-n.x, -n.y⟩ p = -n.along p := by
    simp only [Point.along]
    ring
  have hback : Point.along ⟨-n.x, -n.y⟩ '' {p | p ∈ points} =
      (- ·) '' (n.along '' {p | p ∈ points}) := by
    rw [Set.image_image]
    exact Set.image_congr fun p _ => halong p
  have hantitone : Antitone fun v : ℝ => -v := fun _ _ => neg_le_neg
  rw [IsExtent, hback]
  exact ⟨-greatest, -least, hantitone.map_isGreatest hgreatest, hantitone.map_isLeast hleast,
    by ring⟩

/-- The extent that is computed is the extent. -/
theorem Composer.isExtent_extentAlong (h : points ≠ []) :
    IsExtent n points (extentAlong n points) := by
  have hne : points.map (n.along ·) ≠ [] := by
    rwa [ne_eq, List.map_eq_nil_iff]
  obtain ⟨least, greatest, hextremes, hleast, hgreatest⟩ := Scalar.extremes_spec hne
  have himage : {v | v ∈ points.map (n.along ·)} = n.along '' {p | p ∈ points} :=
    Set.ext fun v => List.mem_map
  rw [himage] at hleast hgreatest
  refine ⟨least, greatest, hleast, hgreatest, ?_⟩
  unfold extentAlong
  rw [show points.map (fun p => p.x * n.x + p.y * n.y) = points.map (n.along ·) from rfl,
    hextremes]

/-! ### Across a segment -/

/-- A unit vector **across** a segment. Across a segment without length it points up. -/
structure IsAcross (start stop n : Point ℝ) : Prop where
  unit : n.x ^ 2 + n.y ^ 2 = 1
  across : n.along (stop - start) = 0
  up : start = stop → n = ⟨0, 1⟩

/-- What is across a segment is across the reversed segment. -/
theorem IsAcross.swap (h : IsAcross start stop n) : IsAcross stop start n where
  unit := h.unit
  across := by
    have hback : n.along (start - stop) = -n.along (stop - start) := by
      simp only [Point.along, Point.x_sub, Point.y_sub]
      ring
    rw [hback, h.across, neg_zero]
  up heq := h.up heq.symm

/-- What is across a segment is across the moved segment. -/
theorem IsAcross.translate (h : IsAcross start stop n) (offset : Point ℝ) :
    IsAcross (start + offset) (stop + offset) n where
  unit := h.unit
  across := by
    have hmoved : stop + offset - (start + offset) = stop - start :=
      Point.ext (add_sub_add_right_eq_sub _ _ _) (add_sub_add_right_eq_sub _ _ _)
    rw [hmoved, h.across]
  up heq := h.up (Point.ext (add_right_cancel (congrArg Point.x heq))
    (add_right_cancel (congrArg Point.y heq)))

/-- There are only two such vectors, in opposite directions. -/
theorem IsAcross.eq_or_neg (hn : IsAcross start stop n) (hm : IsAcross start stop m) :
    m = n ∨ m = ⟨-n.x, -n.y⟩ := by
  by_cases hpoint : start = stop
  · exact .inl ((hm.up hpoint).trans (hn.up hpoint).symm)
  · have hlength : (stop.x - start.x) ^ 2 + (stop.y - start.y) ^ 2 ≠ 0 := by
      rw [← Point.sq_distance]
      exact pow_ne_zero 2 (mt Point.distance_eq_zero_iff.mp hpoint)
    have hn' : (stop.x - start.x) * n.x + (stop.y - start.y) * n.y = 0 := hn.across
    have hm' : (stop.x - start.x) * m.x + (stop.y - start.y) * m.y = 0 := hm.across
    have hparallel : n.x * m.y - n.y * m.x = 0 := by
      refine (mul_eq_zero.mp ?_).resolve_right hlength
      linear_combination ((stop.x - start.x) * m.y - (stop.y - start.y) * m.x) * hn' +
        ((stop.y - start.y) * n.x - (stop.x - start.x) * n.y) * hm'
    have hproduct : (n.x * m.x + n.y * m.y) * (n.x * m.x + n.y * m.y) = 1 := by
      linear_combination (m.x ^ 2 + m.y ^ 2) * hn.unit + hm.unit -
        (n.x * m.y - n.y * m.x) * hparallel
    have hx : m.x = (n.x * m.x + n.y * m.y) * n.x := by
      linear_combination -m.x * hn.unit - n.y * hparallel
    have hy : m.y = (n.x * m.x + n.y * m.y) * n.y := by
      linear_combination -m.y * hn.unit + n.x * hparallel
    rcases mul_self_eq_one_iff.mp hproduct with hone | hone
    · rw [hone, one_mul] at hx hy
      exact .inl (Point.ext hx hy)
    · rw [hone, neg_one_mul] at hx hy
      exact .inr (Point.ext hx hy)

/-- The normal of a segment in coordinates. -/
theorem Composer.normal_eq (start stop : Point ℝ) : normal start stop =
    if 0 < start.distance stop then
      ⟨-(stop.y - start.y) / start.distance stop, (stop.x - start.x) / start.distance stop⟩
    else ⟨0, 1⟩ := by
  rw [← Nat.cast_zero, ← Nat.cast_one]
  rfl

/-- The normal is across its segment. -/
theorem Composer.isAcross_normal (start stop : Point ℝ) :
    IsAcross start stop (normal start stop) := by
  rw [normal_eq]
  split
  · rename_i hlength
    have hsq := Point.sq_distance start stop
    refine ⟨?_, ?_, fun hpoint => absurd (Point.distance_eq_zero_iff.mpr hpoint) hlength.ne'⟩
    · rw [div_pow, div_pow, ← add_div, neg_sq, add_comm, ← hsq]
      exact div_self (pow_ne_zero 2 hlength.ne')
    · simp only [Point.along, Point.x_sub, Point.y_sub]
      ring
  · rename_i hlength
    have hpoint : start = stop := Point.distance_eq_zero_iff.mp
      (le_antisymm (not_lt.mp hlength) (Real.sqrt_nonneg _))
    refine ⟨by norm_num, ?_, fun _ => rfl⟩
    simp [Point.along, hpoint]

/-- The extent across a segment is the one along any vector across it. -/
theorem IsExtent.across (h : IsExtent n points extent) (hn : IsAcross start stop n)
    (hm : IsAcross start stop m) : IsExtent m points extent := by
  rcases hn.eq_or_neg hm with rfl | rfl
  · exact h
  · exact h.neg

end

/-! ### The corners of boxes -/

namespace Bounds

/-- A box that leaves no room around some points. -/
structure TightAround (b : Bounds ℝ) (points : Set (Point ℝ)) : Prop where
  min_x : IsLeast (Point.x '' points) b.min.x
  min_y : IsLeast (Point.y '' points) b.min.y
  max_x : IsGreatest (Point.x '' points) b.max.x
  max_y : IsGreatest (Point.y '' points) b.max.y

variable {b c : Bounds ℝ} {s : Set (Point ℝ)} {points : List (Point ℝ)}

/-- One box is tight around some points. -/
theorem TightAround.unique (hb : b.TightAround s) (hc : c.TightAround s) : b = c := by
  obtain ⟨⟨bx, by'⟩, ⟨bx', by''⟩⟩ := b
  obtain ⟨⟨cx, cy⟩, ⟨cx', cy'⟩⟩ := c
  obtain rfl : bx = cx := hb.min_x.unique hc.min_x
  obtain rfl : by' = cy := hb.min_y.unique hc.min_y
  obtain rfl : bx' = cx' := hb.max_x.unique hc.max_x
  obtain rfl : by'' = cy' := hb.max_y.unique hc.max_y
  rfl

/-- A tight box is proper. -/
theorem TightAround.proper (h : b.TightAround s) : b.Proper :=
  ⟨h.max_x.2 h.min_x.1, h.max_y.2 h.min_y.1⟩

/-- A tight box stays tight when it is joined with a point. -/
theorem TightAround.join_ofPoint (h : b.TightAround s) (p : Point ℝ) :
    (b.join (ofPoint p)).TightAround (insert p s) := by
  rw [h.proper.join_eq (proper_ofPoint p)]
  refine ⟨?_, ?_, ?_, ?_⟩
  · simpa only [Set.image_insert_eq, ofPoint, inf_comm] using h.min_x.insert p.x
  · simpa only [Set.image_insert_eq, ofPoint, inf_comm] using h.min_y.insert p.y
  · simpa only [Set.image_insert_eq, ofPoint, sup_comm] using h.max_x.insert p.x
  · simpa only [Set.image_insert_eq, ofPoint, sup_comm] using h.max_y.insert p.y

/-- A tight box stays tight when it is joined with more points, by induction on them. -/
theorem TightAround.foldl_join (h : b.TightAround s) (points : List (Point ℝ)) :
    (points.foldl (fun b p => b.join (ofPoint p)) b).TightAround (s ∪ {p | p ∈ points}) := by
  induction points generalizing b s with
  | nil =>
      have hnone : s ∪ {p | p ∈ ([] : List (Point ℝ))} = s := by simp
      rwa [hnone]
  | cons p rest ih =>
      have hmore : s ∪ {q | q ∈ p :: rest} = insert p s ∪ {q | q ∈ rest} := by
        ext q
        simp only [List.mem_cons, Set.mem_union, Set.mem_ofPred_eq, Set.mem_insert_iff]
        tauto
      rw [hmore]
      exact ih (h.join_ofPoint p)

/-- The box of some points leaves no room around them, if there is a point. -/
theorem tightAround_ofPoints (h : points ≠ []) :
    (ofPoints points).TightAround {p | p ∈ points} := by
  match points with
  | [] => exact absurd rfl h
  | p :: rest =>
      have hone : (ofPoint p).TightAround {p} := by
        constructor <;> simp [ofPoint]
      have hall : {q | q ∈ p :: rest} = {p} ∪ {q | q ∈ rest} := Set.ext fun q => List.mem_cons
      rw [ofPoints, List.foldl_cons, join_empty_left, hall]
      exact hone.foldl_join rest

/-- The corners of a box have an extreme value in each coordinate. -/
theorem mem_corners {p : Point ℝ} : p ∈ b.corners ↔
    (p.x = b.min.x ∨ p.x = b.max.x) ∧ (p.y = b.min.y ∨ p.y = b.max.y) := by
  obtain ⟨px, py⟩ := p
  simp only [corners, List.mem_cons, List.not_mem_nil, or_false, Point.mk.injEq]
  tauto

/-- The corners of a box around the origin. -/
theorem mem_corners_centered {p : Point ℝ} {x y : ℝ} :
    p ∈ (⟨⟨-x, -y⟩, ⟨x, y⟩⟩ : Bounds ℝ).corners ↔ |p.x| = |x| ∧ |p.y| = |y| := by
  rw [mem_corners, abs_eq_abs, abs_eq_abs, or_comm, or_comm (a := p.y = _)]

/-- **Points that are the corners of a box** around the origin are the corners of their box. -/
theorem mem_corners_ofPoints {x y : ℝ} (h : ∀ p, p ∈ points ↔ |p.x| = |x| ∧ |p.y| = |y|)
    {p : Point ℝ} : p ∈ (ofPoints points).corners ↔ p ∈ points := by
  have hleast : (⟨-|x|, -|y|⟩ : Point ℝ) ∈ points := (h _).mpr (by simp)
  have hgreatest : (⟨|x|, |y|⟩ : Point ℝ) ∈ points := (h _).mpr (by simp)
  have htight : TightAround ⟨⟨-|x|, -|y|⟩, ⟨|x|, |y|⟩⟩ {p | p ∈ points} := by
    refine ⟨⟨⟨_, hleast, rfl⟩, ?_⟩, ⟨⟨_, hleast, rfl⟩, ?_⟩, ⟨⟨_, hgreatest, rfl⟩, ?_⟩,
      ⟨⟨_, hgreatest, rfl⟩, ?_⟩⟩
    · rintro - ⟨q, hq, rfl⟩
      exact (abs_le.mp ((h q).mp hq).1.le).1
    · rintro - ⟨q, hq, rfl⟩
      exact (abs_le.mp ((h q).mp hq).2.le).1
    · rintro - ⟨q, hq, rfl⟩
      exact (abs_le.mp ((h q).mp hq).1.le).2
    · rintro - ⟨q, hq, rfl⟩
      exact (abs_le.mp ((h q).mp hq).2.le).2
  rw [(tightAround_ofPoints (List.ne_nil_of_mem hleast)).unique htight, mem_corners_centered,
    abs_abs, abs_abs, h]

/-- The box of a rectangle around the origin. -/
theorem ofSize_centered (x y : ℝ) :
    ofSize ⟨-x / 2, -y / 2⟩ x y = ⟨⟨-(x / 2), -(y / 2)⟩, ⟨x / 2, y / 2⟩⟩ := by
  simp only [ofSize, Bounds.mk.injEq, Point.mk.injEq]
  refine ⟨⟨?_, ?_⟩, ?_, ?_⟩ <;> ring

/-- A box is as far from its least corner as it is wide and high. -/
theorem ofSize_min (b : Bounds ℝ) : ofSize b.min b.width b.height = b := by
  obtain ⟨⟨_, _⟩, ⟨_, _⟩⟩ := b
  simp only [ofSize, width, height, add_sub_cancel]

end Bounds

/-! ### Quarter turns -/

/-- Points on both sides of zero, stretched. -/
theorem exists_abs_eq_mul {a factor v : ℝ} :
    (∃ u, |u| = |a| ∧ factor * u = v) ↔ |v| = |factor * a| := by
  constructor
  · rintro ⟨u, hu, rfl⟩
    rw [abs_mul, abs_mul, hu]
  · intro hv
    rcases abs_eq_abs.mp hv with rfl | rfl
    · exact ⟨a, rfl, rfl⟩
    · exact ⟨-a, abs_neg a, mul_neg _ _⟩

namespace Transform

variable {t : Transform ℝ}

/-- Quarter turns are along one axis or the other. -/
theorem sin_or_cos_eq_zero (h : Scalar.isMultipleOf t.rotation 90) :
    sin (Scalar.radians t.rotation) = 0 ∨ cos (Scalar.radians t.rotation) = 0 := by
  obtain ⟨k, hk⟩ := Scalar.isMultipleOf_iff.mp h
  have hangle : Scalar.radians t.rotation = k * (π / 2) := by
    rw [hk]
    show (k * ((90 : ℕ) : ℝ)) * (π / ((180 : ℕ) : ℝ)) = k * (π / 2)
    push_cast
    ring
  rw [hangle]
  obtain ⟨half, rfl | rfl⟩ := k.even_or_odd'
  · exact .inl (sin_eq_zero_iff.mpr ⟨half, by push_cast; ring⟩)
  · exact .inr (cos_eq_zero_iff.mpr ⟨half, by push_cast; ring⟩)

/-- **Quarter turns** stretch the two coordinates, and may exchange them. -/
theorem exists_applyPoint_eq (h : Scalar.isMultipleOf t.rotation 90) :
    ∃ a b, (∀ p, t.applyPoint p = ⟨a * p.x, b * p.y⟩) ∨
      ∀ p, t.applyPoint p = ⟨a * p.y, b * p.x⟩ := by
  obtain ⟨a, b, hreflect⟩ := t.mirroring.exists_reflect_eq
  rcases sin_or_cos_eq_zero h with hsin | hcos
  · refine ⟨a * t.scale * cos (Scalar.radians t.rotation),
      b * t.scale * cos (Scalar.radians t.rotation), .inl fun p => ?_⟩
    rw [applyPoint_eq, hreflect, Point.rotate_eq, hsin]
    exact Point.ext (by simp only [Point.x_scale, Point.y_scale]; ring)
      (by simp only [Point.x_scale, Point.y_scale]; ring)
  · refine ⟨-(b * t.scale * sin (Scalar.radians t.rotation)),
      a * t.scale * sin (Scalar.radians t.rotation), .inr fun p => ?_⟩
    rw [applyPoint_eq, hreflect, Point.rotate_eq, hcos]
    exact Point.ext (by simp only [Point.x_scale, Point.y_scale]; ring)
      (by simp only [Point.x_scale, Point.y_scale]; ring)

/-- Quarter turns take a box around the origin to another one. -/
theorem exists_axes (h : Scalar.isMultipleOf t.rotation 90) (x y : ℝ) : ∃ x' y', ∀ p,
    p ∈ (⟨⟨-x, -y⟩, ⟨x, y⟩⟩ : Bounds ℝ).corners.map t.applyPoint ↔
      |p.x| = |x'| ∧ |p.y| = |y'| := by
  obtain ⟨a, b, heq | heq⟩ := exists_applyPoint_eq h
  · refine ⟨a * x, b * y, fun p => ?_⟩
    rw [List.mem_map, ← exists_abs_eq_mul, ← exists_abs_eq_mul]
    constructor
    · rintro ⟨q, hq, rfl⟩
      rw [heq]
      obtain ⟨hx, hy⟩ := Bounds.mem_corners_centered.mp hq
      exact ⟨⟨q.x, hx, rfl⟩, q.y, hy, rfl⟩
    · rintro ⟨⟨u, hu, hux⟩, w, hw, hwy⟩
      exact ⟨⟨u, w⟩, Bounds.mem_corners_centered.mpr ⟨hu, hw⟩,
        (heq _).trans (Point.ext hux hwy)⟩
  · refine ⟨a * y, b * x, fun p => ?_⟩
    rw [List.mem_map, ← exists_abs_eq_mul, ← exists_abs_eq_mul]
    constructor
    · rintro ⟨q, hq, rfl⟩
      rw [heq]
      obtain ⟨hx, hy⟩ := Bounds.mem_corners_centered.mp hq
      exact ⟨⟨q.y, hy, rfl⟩, q.x, hx, rfl⟩
    · rintro ⟨⟨w, hw, hwx⟩, u, hu, huy⟩
      exact ⟨⟨u, w⟩, Bounds.mem_corners_centered.mpr ⟨hu, hw⟩,
        (heq _).trans (Point.ext hwx huy)⟩

end Transform

/-! ### Strokes and flashes -/

/-- The corners of a rectangle or a polygon. -/
noncomputable def Geometry.corners : Geometry ℝ → List (Point ℝ)
  | .rectangle origin width height => (Bounds.ofSize origin width height).corners
  | .polygon vertices => vertices
  | .circle .. | .line .. | .arc .. => []

namespace Composer

/-- The transformed corners of a rectangle around the origin. -/
theorem transformedCorners_eq (t : Transform ℝ) (x y : ℝ) : transformedCorners t x y =
    (⟨⟨-(x / 2), -(y / 2)⟩, ⟨x / 2, y / 2⟩⟩ : Bounds ℝ).corners.map t.applyPoint := by
  show ([(-(1 : ℕ), -(1 : ℕ)), ((1 : ℕ), -(1 : ℕ)), ((1 : ℕ), (1 : ℕ)), (-(1 : ℕ), (1 : ℕ))] :
    List (ℝ × ℝ)).map (fun (sx, sy) => t.applyPoint ⟨sx * x / 2, sy * y / 2⟩) = _
  simp only [Nat.cast_one, List.map_cons, List.map_nil, neg_mul, one_mul, neg_div]
  rfl

/-- **The corners of a flash** are the transformed corners, in either of its two forms. -/
theorem mem_corners_applyShape (t : Transform ℝ) (x y : ℝ) (p : Point ℝ) :
    p ∈ (t.applyShape (centeredRectangle x y)).geometry.corners ↔
      p ∈ transformedCorners t x y := by
  have hbox : Bounds.ofSize ⟨-x / ((2 : ℕ) : ℝ), -y / ((2 : ℕ) : ℝ)⟩ x y = _ :=
    Bounds.ofSize_centered x y
  show p ∈ (t.applyGeometry (.rectangle ⟨-x / ((2 : ℕ) : ℝ), -y / ((2 : ℕ) : ℝ)⟩ x y)).corners ↔ _
  rw [transformedCorners_eq]
  simp only [Transform.applyGeometry]
  rw [hbox]
  split
  · rename_i hquarter
    obtain ⟨x', y', haxes⟩ := Transform.exists_axes hquarter (x / 2) (y / 2)
    rw [Geometry.corners, Bounds.ofSize_min]
    exact Bounds.mem_corners_ofPoints haxes
  · rfl

/-- A stroke with a rectangle is as wide as its transformed corners are across the stroke. -/
theorem strokeWidth_eq {σ : Type} {s : GraphicsState ℝ} {d : ApertureDefinition ℝ}
    {r : RectangularTemplate ℝ} (hcurrent : s.current = .ok (.aperture d))
    (htemplate : d.template = .rectangle r) (start stop : Point ℝ) :
    (strokeWidth s start stop : Action σ (Option ℝ)) =
      pure (some (extentAlong (normal start stop) (transformedCorners s.transform r.x r.y))) := by
  have hpure : (Action.ofExcept (.ok (.aperture d)) : Action σ (Resolved ℝ)) =
      pure (.aperture d) := rfl
  rw [strokeWidth, hcurrent, hpure, pure_bind]
  simp only [htemplate]

/-- **Strokes are as wide as flashes.** The width of a stroke with a rectangle is the extent of the
corners of the flashed shape across the stroke, whichever way across. The stroke back and a stroke
elsewhere are as wide. -/
theorem strokeWidth_rectangle {σ : Type} {s : GraphicsState ℝ} {d : ApertureDefinition ℝ}
    {r : RectangularTemplate ℝ} (hcurrent : s.current = .ok (.aperture d))
    (htemplate : d.template = .rectangle r) (start stop offset : Point ℝ) : ∃ width,
      (∃ n, IsAcross start stop n) ∧
      (∀ n, IsAcross start stop n →
        IsExtent n (s.transform.applyShape (centeredRectangle r.x r.y)).geometry.corners width) ∧
      (strokeWidth s start stop : Action σ (Option ℝ)) = pure (some width) ∧
      (strokeWidth s stop start : Action σ (Option ℝ)) = pure (some width) ∧
      (strokeWidth s (start + offset) (stop + offset) : Action σ (Option ℝ)) =
        pure (some width) := by
  have hne : transformedCorners s.transform r.x r.y ≠ [] := by simp [transformedCorners]
  have hstroke := isAcross_normal start stop
  have hextent := isExtent_extentAlong (n := normal start stop) hne
  have hsame {start' stop' : Point ℝ} (h : IsAcross start stop (normal start' stop')) :
      extentAlong (normal start' stop') (transformedCorners s.transform r.x r.y) =
        extentAlong (normal start stop) (transformedCorners s.transform r.x r.y) :=
    (isExtent_extentAlong hne).unique (hextent.across hstroke h)
  refine ⟨_, ⟨_, hstroke⟩, fun n hn => ?_, strokeWidth_eq hcurrent htemplate start stop, ?_, ?_⟩
  · exact (hextent.across hstroke hn).congr (mem_corners_applyShape s.transform r.x r.y)
  · rw [strokeWidth_eq hcurrent htemplate, hsame (isAcross_normal stop start).swap]
  · have hmoved := (isAcross_normal (start + offset) (stop + offset)).translate
      ⟨-offset.x, -offset.y⟩
    have hback (p : Point ℝ) : p + offset + ⟨-offset.x, -offset.y⟩ = p :=
      Point.ext (add_neg_cancel_right _ _) (add_neg_cancel_right _ _)
    rw [hback, hback] at hmoved
    rw [strokeWidth_eq hcurrent htemplate, hsame hmoved]

/-- A state where a rectangle twice as high as wide is selected, mirrored along one axis, turned by
a quarter turn and doubled. -/
noncomputable def turnedRectangle : GraphicsState ℝ :=
  { GraphicsState.initial with
    selected := some (.ofNumber 10)
    apertures := Std.TreeMap.insert ∅ (.ofNumber 10) ⟨.ofNumber 10, .rectangle ⟨1, 2, none⟩⟩
    transform := ⟨.dark, .x, 90, 2⟩ }

/-- Such a stroke to the right and the flash agree. -/
theorem strokeWidth_rectangle_turned : ∃ width,
    IsExtent ⟨0, 1⟩
      (turnedRectangle.transform.applyShape (centeredRectangle 1 2)).geometry.corners width ∧
    (strokeWidth turnedRectangle ⟨0, 0⟩ ⟨3, 0⟩ : Action Unit (Option ℝ)) = pure (some width) ∧
    (strokeWidth turnedRectangle ⟨3, 0⟩ ⟨0, 0⟩ : Action Unit (Option ℝ)) = pure (some width) := by
  have hcurrent : turnedRectangle.current =
      .ok (.aperture ⟨.ofNumber 10, .rectangle ⟨1, 2, none⟩⟩) := by
    simp [turnedRectangle, GraphicsState.current, GraphicsState.resolve]
  obtain ⟨width, -, hflash, hstroke, hback, -⟩ :=
    strokeWidth_rectangle hcurrent rfl ⟨0, 0⟩ ⟨3, 0⟩ ⟨0, 0⟩
  have hup : IsAcross (⟨0, 0⟩ : Point ℝ) ⟨3, 0⟩ ⟨0, 1⟩ := by
    refine ⟨by norm_num, ?_, fun _ => rfl⟩
    simp [Point.along]
  exact ⟨width, hflash _ hup, hstroke, hback⟩

end Composer

end Photoplot
