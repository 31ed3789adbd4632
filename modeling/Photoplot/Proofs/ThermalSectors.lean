import Mathlib.Analysis.SpecialFunctions.Trigonometric.Inverse
import Photoplot.Aperture.Primitive
import Photoplot.Scalar.Real

/-!
# The Sectors of Thermals

A thermal is a ring with a cross of two gaps cut out of it, along both axes. What is left are four
sectors, and whoever solders relies on them: a vertex inside of a gap bridges it with copper. This
module says exactly which thermals have their vertices on the ring and clear of the gaps.

The sides of a sector are trimmed by the angle at which half the gap is met on the circle. Beyond
an eighth of a turn the two trims of an arc overlap, and the arc runs backwards, across the gaps.
That happens on the outer circle when the gap is more than `1 / √2` times as wide as the thermal,
and on the inner one when it is more than `1 / √2` times as wide as the hole, but still narrower.

Everything here is about the real numbers.

## Quarter convention

The sectors are numbered by the quarter turns before them. Seen from the centre, quarter turns
exchange the distances from the two axes and change signs, so every sector is as good as the first.

## Main definitions

* `ClearOfGaps`: a point of a thermal is where it should be.

## Main results

* `clearOfGaps_polar_iff`: a point in any of the sectors.
* `clearOfGaps_arc_iff`: an arc that is trimmed by half the gap on both sides.
* `clearOfGaps_thermalSectors_iff`: all four sectors.
* `clearOfGaps_shapes_iff`: the same for the primitive, where it is not passed over as degenerate.
-/

namespace Photoplot

open Real

/-- A point lies on the ring of a thermal and not inside of a gap. -/
structure ClearOfGaps (center : Point ℝ) (outerRadius innerRadius halfGap : ℝ) (p : Point ℝ) :
    Prop where
  x : halfGap ≤ |p.x - center.x|
  y : halfGap ≤ |p.y - center.y|
  innerRadius_le : innerRadius ≤ center.distance p
  le_outerRadius : center.distance p ≤ outerRadius

/-! ### Points at an angle -/

/-- Quarter turns leave the distances from the axes alone or exchange them. -/
theorem abs_quarterTurns (k : ℕ) (θ : ℝ) :
    (|cos (k * (π / 2) + θ)| = |cos θ| ∧ |sin (k * (π / 2) + θ)| = |sin θ|) ∨
      (|cos (k * (π / 2) + θ)| = |sin θ| ∧ |sin (k * (π / 2) + θ)| = |cos θ|) := by
  induction k with
  | zero => simp
  | succ k ih =>
      have hnext : ((k + 1 : ℕ) : ℝ) * (π / 2) + θ = (k * (π / 2) + θ) + π / 2 := by
        push_cast
        ring
      rw [hnext, cos_add_pi_div_two, sin_add_pi_div_two, abs_neg]
      rcases ih with ⟨hcos, hsin⟩ | ⟨hcos, hsin⟩
      · exact .inr ⟨hsin, hcos⟩
      · exact .inl ⟨hsin, hcos⟩

section

variable {center : Point ℝ} {outerRadius innerRadius halfGap radius θ : ℝ}

/-- A point in polar coordinates lies at its radius from the centre. -/
theorem distance_polar (hradius : 0 ≤ radius) :
    center.distance (center + .polar radius θ) = radius := by
  have hx : (center + Point.polar radius θ).x - center.x = radius * cos θ :=
    add_sub_cancel_left center.x (radius * cos θ)
  have hy : (center + Point.polar radius θ).y - center.y = radius * sin θ :=
    add_sub_cancel_left center.y (radius * sin θ)
  show √(((center + Point.polar radius θ).x - center.x) ^ 2 +
    ((center + Point.polar radius θ).y - center.y) ^ 2) = radius
  rw [hx, hy, mul_pow, mul_pow, ← mul_add, cos_sq_add_sin_sq, mul_one, sqrt_sq hradius]

/-- **A point in a sector** is clear of the gaps if the one in the first sector is. -/
theorem clearOfGaps_polar_iff (hradius : 0 ≤ radius) (k : ℕ) :
    ClearOfGaps center outerRadius innerRadius halfGap
        (center + .polar radius (k * (π / 2) + θ)) ↔
      (halfGap ≤ radius * |cos θ| ∧ halfGap ≤ radius * |sin θ|) ∧
        innerRadius ≤ radius ∧ radius ≤ outerRadius := by
  have hx : |(center + Point.polar radius (k * (π / 2) + θ)).x - center.x| =
      radius * |cos (k * (π / 2) + θ)| := by
    rw [show (center + Point.polar radius (k * (π / 2) + θ)).x - center.x = _ from
      add_sub_cancel_left center.x (radius * cos (k * (π / 2) + θ)), abs_mul, abs_of_nonneg hradius]
  have hy : |(center + Point.polar radius (k * (π / 2) + θ)).y - center.y| =
      radius * |sin (k * (π / 2) + θ)| := by
    rw [show (center + Point.polar radius (k * (π / 2) + θ)).y - center.y = _ from
      add_sub_cancel_left center.y (radius * sin (k * (π / 2) + θ)), abs_mul, abs_of_nonneg hradius]
  have hclear : ClearOfGaps center outerRadius innerRadius halfGap
        (center + .polar radius (k * (π / 2) + θ)) ↔
      (halfGap ≤ radius * |cos (k * (π / 2) + θ)| ∧ halfGap ≤ radius * |sin (k * (π / 2) + θ)|) ∧
        innerRadius ≤ radius ∧ radius ≤ outerRadius := by
    rw [← hx, ← hy]
    constructor
    · rintro ⟨hx, hy, hinner, houter⟩
      rw [distance_polar hradius] at hinner houter
      exact ⟨⟨hx, hy⟩, hinner, houter⟩
    · rintro ⟨⟨hx, hy⟩, hinner, houter⟩
      exact ⟨hx, hy, by rwa [distance_polar hradius], by rwa [distance_polar hradius]⟩
  rw [hclear]
  rcases abs_quarterTurns k θ with ⟨hcos, hsin⟩ | ⟨hcos, hsin⟩
  · rw [hcos, hsin]
  · rw [hcos, hsin, and_comm (a := halfGap ≤ radius * |sin θ|)]

/-! ### Trimmed arcs -/

/-- The trim of a circle meets half the gap. -/
theorem radius_mul_sin_trim (hradius : 0 < radius) (hgap : 0 ≤ halfGap) (hle : halfGap ≤ radius) :
    radius * sin (arcsin (halfGap / radius)) = halfGap := by
  have hquotient : halfGap / radius ≤ 1 := (div_le_one hradius).mpr hle
  have hnonneg : 0 ≤ halfGap / radius := div_nonneg hgap hradius.le
  rw [sin_arcsin (by linarith) hquotient, mul_div_cancel₀ _ hradius.ne']

/-- The trims of an arc do not overlap if the gap is narrow for the circle. -/
theorem trim_le_iff (hradius : 0 < radius) (hgap : 0 ≤ halfGap) (hle : halfGap ≤ radius) :
    arcsin (halfGap / radius) ≤ π / 4 ↔ √2 * halfGap ≤ radius := by
  have hquotient : halfGap / radius ≤ 1 := (div_le_one hradius).mpr hle
  have hnonneg : 0 ≤ halfGap / radius := div_nonneg hgap hradius.le
  have hroot : √2 * √2 = (2 : ℝ) := mul_self_sqrt (by norm_num)
  have hpos : (0 : ℝ) < √2 := sqrt_pos.mpr (by norm_num)
  rw [arcsin_le_iff_le_sin ⟨by linarith, hquotient⟩ ⟨by linarith [pi_pos], by linarith [pi_pos]⟩,
    sin_pi_div_four, div_le_iff₀ hradius]
  constructor
  · intro h
    calc √2 * halfGap ≤ √2 * (√2 / 2 * radius) := mul_le_mul_of_nonneg_left h hpos.le
      _ = √2 * √2 / 2 * radius := by ring
      _ = radius := by rw [hroot]; ring
  · intro h
    calc halfGap = √2 * √2 / 2 * halfGap := by rw [hroot]; ring
      _ = √2 / 2 * (√2 * halfGap) := by ring
      _ ≤ √2 / 2 * radius := mul_le_mul_of_nonneg_left h (by positivity)

/-- A point of an arc between its trims is clear of the gaps. -/
theorem trimmed_le (hradius : 0 < radius) (hgap : 0 ≤ halfGap) (hle : halfGap ≤ radius)
    (hlow : arcsin (halfGap / radius) ≤ θ) (hhigh : θ ≤ π / 2 - arcsin (halfGap / radius)) :
    halfGap ≤ radius * |cos θ| ∧ halfGap ≤ radius * |sin θ| := by
  have htrim : 0 ≤ arcsin (halfGap / radius) := arcsin_nonneg.mpr (div_nonneg hgap hradius.le)
  have hsin : sin (arcsin (halfGap / radius)) ≤ sin θ :=
    sin_le_sin_of_le_of_le_pi_div_two (by linarith [pi_pos]) (by linarith) hlow
  have hcos : sin (arcsin (halfGap / radius)) ≤ cos θ := by
    rw [← sin_pi_div_two_sub θ]
    exact sin_le_sin_of_le_of_le_pi_div_two (by linarith [pi_pos]) (by linarith) (by linarith)
  have hhalf := radius_mul_sin_trim hradius hgap hle
  constructor
  · calc halfGap = radius * sin (arcsin (halfGap / radius)) := hhalf.symm
      _ ≤ radius * cos θ := mul_le_mul_of_nonneg_left hcos hradius.le
      _ ≤ radius * |cos θ| := mul_le_mul_of_nonneg_left (le_abs_self _) hradius.le
  · calc halfGap = radius * sin (arcsin (halfGap / radius)) := hhalf.symm
      _ ≤ radius * sin θ := mul_le_mul_of_nonneg_left hsin hradius.le
      _ ≤ radius * |sin θ| := mul_le_mul_of_nonneg_left (le_abs_self _) hradius.le

/-- The end of an arc is inside of a gap if the trims overlap. -/
theorem trim_le_of_le_cos (hradius : 0 < radius) (hgap : 0 ≤ halfGap) (hle : halfGap ≤ radius)
    (h : halfGap ≤ radius * |cos (arcsin (halfGap / radius))|) :
    arcsin (halfGap / radius) ≤ π / 4 := by
  have htrim : 0 ≤ arcsin (halfGap / radius) := arcsin_nonneg.mpr (div_nonneg hgap hradius.le)
  have hquarter : arcsin (halfGap / radius) ≤ π / 2 := arcsin_le_pi_div_two _
  rw [abs_of_nonneg (cos_nonneg_of_neg_pi_div_two_le_of_le (by linarith [pi_pos]) hquarter),
    ← sin_pi_div_two_sub] at h
  by_contra hover
  have hless : sin (π / 2 - arcsin (halfGap / radius)) < sin (arcsin (halfGap / radius)) :=
    sin_lt_sin_of_lt_of_le_pi_div_two (by linarith [pi_pos]) hquarter (by linarith)
  have hbeyond := mul_lt_mul_of_pos_left hless hradius
  rw [radius_mul_sin_trim hradius hgap hle] at hbeyond
  linarith

/-- The points along an arc are those at seventeen angles. -/
theorem mem_arcPoints {p : Point ℝ} {start stop : ℝ} :
    p ∈ arcPoints center radius start stop ↔ ∃ j : ℕ, j ≤ 16 ∧
      p = center + .polar radius (start + (stop - start) * j / 16) := by
  rw [arcPoints, List.mem_map]
  constructor
  · rintro ⟨j, hj, rfl⟩
    exact ⟨j, Nat.lt_succ_iff.mp (List.mem_range.mp hj), rfl⟩
  · rintro ⟨j, hj, rfl⟩
    exact ⟨j, List.mem_range.mpr (Nat.lt_succ_iff.mpr hj), rfl⟩

/-- An arc has the same points as the one that runs backwards. -/
theorem mem_arcPoints_comm {p : Point ℝ} {start stop : ℝ} :
    p ∈ arcPoints center radius start stop ↔ p ∈ arcPoints center radius stop start := by
  have hback {start stop : ℝ} (h : p ∈ arcPoints center radius start stop) :
      p ∈ arcPoints center radius stop start := by
    obtain ⟨j, hj, rfl⟩ := mem_arcPoints.mp h
    refine mem_arcPoints.mpr ⟨16 - j, Nat.sub_le _ _, ?_⟩
    rw [Nat.cast_sub hj]
    congr 2
    push_cast
    ring
  exact ⟨hback, hback⟩

variable (center) in
/-- **An arc** that is trimmed by half the gap on both sides is clear of the gaps if and only if
its trims do not overlap. -/
theorem clearOfGaps_arc_iff (hradius : 0 < radius) (hgap : 0 ≤ halfGap) (hle : halfGap ≤ radius)
    (hinner : innerRadius ≤ radius) (houter : radius ≤ outerRadius) (k : ℕ) :
    (∀ p ∈ arcPoints center radius (k * (π / 2) + arcsin (halfGap / radius))
        (k * (π / 2) + π / 2 - arcsin (halfGap / radius)),
      ClearOfGaps center outerRadius innerRadius halfGap p) ↔ √2 * halfGap ≤ radius := by
  rw [← trim_le_iff hradius hgap hle]
  constructor
  · intro h
    have hfirst := h _ (mem_arcPoints.mpr ⟨0, Nat.zero_le _, rfl⟩)
    rw [Nat.cast_zero, mul_zero, zero_div, add_zero] at hfirst
    exact trim_le_of_le_cos hradius hgap hle ((clearOfGaps_polar_iff hradius.le k).mp hfirst).1.1
  · intro htrim p hp
    obtain ⟨j, hj, rfl⟩ := mem_arcPoints.mp hp
    have hangle : k * (π / 2) + arcsin (halfGap / radius) +
        (k * (π / 2) + π / 2 - arcsin (halfGap / radius) -
          (k * (π / 2) + arcsin (halfGap / radius))) * j / 16 =
        k * (π / 2) + (arcsin (halfGap / radius) +
          (π / 2 - 2 * arcsin (halfGap / radius)) * (j / 16)) := by
      ring
    have hpart : (j : ℝ) / 16 ≤ 1 := by
      rw [div_le_one (by norm_num)]
      exact_mod_cast hj
    have hwide : 0 ≤ π / 2 - 2 * arcsin (halfGap / radius) := by linarith
    have hstep : (π / 2 - 2 * arcsin (halfGap / radius)) * (j / 16) ≤
        π / 2 - 2 * arcsin (halfGap / radius) := mul_le_of_le_one_right hwide hpart
    have hstart : 0 ≤ (π / 2 - 2 * arcsin (halfGap / radius)) * (j / 16) :=
      mul_nonneg hwide (by positivity)
    rw [hangle]
    refine (clearOfGaps_polar_iff hradius.le k).mpr ⟨?_, hinner, houter⟩
    exact trimmed_le hradius hgap hle (by linarith) (by linarith)

/-! ### Sectors -/

/-- The corner of the two edges of the gap, seen from the centre. -/
theorem corner_eq_polar (halfGap base : ℝ) :
    (⟨halfGap * (cos base - sin base), halfGap * (sin base + cos base)⟩ : Point ℝ) =
      .polar (√2 * halfGap) (base + π / 4) := by
  have hroot : √2 * √2 = (2 : ℝ) := mul_self_sqrt (by norm_num)
  have hcos : √2 * halfGap * cos (base + π / 4) = halfGap * (cos base - sin base) := by
    rw [cos_add, cos_pi_div_four, sin_pi_div_four]
    calc √2 * halfGap * (cos base * (√2 / 2) - sin base * (√2 / 2))
        = √2 * √2 / 2 * (halfGap * (cos base - sin base)) := by ring
      _ = halfGap * (cos base - sin base) := by rw [hroot]; ring
  have hsin : √2 * halfGap * sin (base + π / 4) = halfGap * (sin base + cos base) := by
    rw [sin_add, cos_pi_div_four, sin_pi_div_four]
    calc √2 * halfGap * (sin base * (√2 / 2) + cos base * (√2 / 2))
        = √2 * √2 / 2 * (halfGap * (sin base + cos base)) := by ring
      _ = halfGap * (sin base + cos base) := by rw [hroot]; ring
  rw [← hcos, ← hsin]
  rfl

variable (center) in
/-- **The inner boundary of a sector** is clear of the gaps if its arc is, or if the corner that
takes the place of the arc lies on the ring. -/
theorem clearOfGaps_sectorInner_iff (hgap : 0 ≤ halfGap) (hring : innerRadius ≤ outerRadius)
    (k : ℕ) :
    (∀ p ∈ sectorInner center innerRadius halfGap (k * (π / 2)),
        ClearOfGaps center outerRadius innerRadius halfGap p) ↔
      if halfGap < innerRadius then √2 * halfGap ≤ innerRadius else √2 * halfGap ≤ outerRadius := by
  by_cases hnarrow : halfGap < innerRadius
  · rw [if_pos hnarrow, sectorInner, if_pos hnarrow, ← clearOfGaps_arc_iff center
      (hgap.trans_lt hnarrow) hgap hnarrow.le le_rfl hring k]
    exact forall_congr' fun p => imp_congr_left mem_arcPoints_comm
  · rw [if_neg hnarrow, sectorInner, if_neg hnarrow]
    have hroot : √2 * √2 = (2 : ℝ) := mul_self_sqrt (by norm_num)
    have hone : (1 : ℝ) ≤ √2 := one_le_sqrt.mpr (by norm_num)
    have hedge : √2 * halfGap * (√2 / 2) = halfGap := by
      calc √2 * halfGap * (√2 / 2) = √2 * √2 / 2 * halfGap := by ring
        _ = halfGap := by rw [hroot]; ring
    have houtside : innerRadius ≤ √2 * halfGap :=
      calc innerRadius ≤ 1 * halfGap := by linarith
        _ ≤ √2 * halfGap := mul_le_mul_of_nonneg_right hone hgap
    have hcorner : ClearOfGaps center outerRadius innerRadius halfGap
        (center + .polar (√2 * halfGap) (k * (π / 2) + π / 4)) ↔ _ :=
      clearOfGaps_polar_iff (mul_nonneg (sqrt_nonneg 2) hgap) k
    rw [← corner_eq_polar, cos_pi_div_four, sin_pi_div_four,
      abs_of_nonneg (by positivity : (0 : ℝ) ≤ √2 / 2), hedge] at hcorner
    refine (List.forall_mem_singleton).trans (hcorner.trans ?_)
    exact ⟨fun h => h.2.2, fun h => ⟨⟨le_rfl, le_rfl⟩, houtside, h⟩⟩

/-- There are four sectors, a quarter turn apart, each with an outer arc and an inner side. -/
theorem mem_thermalSectors {sector : List (Point ℝ)} :
    sector ∈ thermalSectors center outerRadius innerRadius halfGap ↔ ∃ k : ℕ, k < 4 ∧
      sector = arcPoints center outerRadius (k * (π / 2) + arcsin (halfGap / outerRadius))
          (k * (π / 2) + π / 2 - arcsin (halfGap / outerRadius)) ++
        sectorInner center innerRadius halfGap (k * (π / 2)) := by
  rw [thermalSectors, List.mem_map]
  constructor
  · rintro ⟨k, hk, rfl⟩
    exact ⟨k, List.mem_range.mp hk, rfl⟩
  · rintro ⟨k, hk, rfl⟩
    exact ⟨k, List.mem_range.mpr hk, rfl⟩

variable (center) in
/-- **The sectors of a thermal** are clear of its gaps if and only if the gap is at most `1 / √2`
times as wide as the thermal, and also as the hole if it is narrower than that. -/
theorem clearOfGaps_thermalSectors_iff (hinner : 0 ≤ innerRadius) (hgap : 0 ≤ halfGap)
    (hring : innerRadius < outerRadius) (hwidth : halfGap < outerRadius) :
    (∀ sector ∈ thermalSectors center outerRadius innerRadius halfGap, ∀ p ∈ sector,
        ClearOfGaps center outerRadius innerRadius halfGap p) ↔
      √2 * halfGap ≤ outerRadius ∧ (halfGap < innerRadius → √2 * halfGap ≤ innerRadius) := by
  have houter (k : ℕ) := clearOfGaps_arc_iff center (hinner.trans_lt hring) hgap
    hwidth.le hring.le le_rfl k
  have hinside (k : ℕ) := clearOfGaps_sectorInner_iff center hgap hring.le k
  constructor
  · intro h
    have hfirst := h _ (mem_thermalSectors.mpr ⟨0, by norm_num, rfl⟩)
    refine ⟨(houter 0).mp fun p hp => hfirst p (List.mem_append_left _ hp), fun hnarrow => ?_⟩
    have hboundary := (hinside 0).mp fun p hp => hfirst p (List.mem_append_right _ hp)
    rwa [if_pos hnarrow] at hboundary
  · rintro ⟨hwide, hnarrow⟩ sector hsector p hp
    obtain ⟨k, -, rfl⟩ := mem_thermalSectors.mp hsector
    rcases List.mem_append.mp hp with hp | hp
    · exact (houter k).mpr hwide p hp
    · refine (hinside k).mpr ?_ p hp
      split
      · exact hnarrow ‹_›
      · exact hwide

end

/-! ### The primitive -/

section

variable {name : String} {b : Bindings ℝ}
  {x y outerDiameter innerDiameter gap rotation : Expression ℝ} {center : Point ℝ}
  {outer inner width degrees : ℝ}

/-- An expression that has a value is replaced by it. -/
theorem value_bind {β : Type} {e : Expression ℝ} {v : ℝ} (h : e.eval b = .ok v)
    (f : ℝ → Action (Bindings ℝ) β) : (value e >>= f) b = f v b := by
  show Action.bind (value e) f b = f v b
  rw [Action.bind, value, h]
  rfl

/-- A pair of expressions that have values is replaced by the point. -/
theorem pointValue_bind {β : Type} (hx : x.eval b = .ok center.x) (hy : y.eval b = .ok center.y)
    (f : Point ℝ → Action (Bindings ℝ) β) : (pointValue x y >>= f) b = f center b := by
  rw [pointValue, bind_assoc, value_bind hx, bind_assoc, value_bind hy, pure_bind]

variable (name) in
/-- **A thermal** is passed over with a warning if it is degenerate, and else it has four
sectors. -/
theorem shapes_thermal (hx : x.eval b = .ok center.x) (hy : y.eval b = .ok center.y)
    (houter : outerDiameter.eval b = .ok outer) (hinner : innerDiameter.eval b = .ok inner)
    (hgap : gap.eval b = .ok width) (hrotation : rotation.eval b = .ok degrees) :
    (Primitive.thermal x y outerDiameter innerDiameter gap rotation).shapes name b =
      if outer / 2 ≤ max (inner / 2) 0 ∨ outer / 2 ≤ width / 2 then
        ⟨.ok [], b, [.degenerateThermal name]⟩
      else
        ⟨.ok ((thermalSectors center (outer / 2) (max (inner / 2) 0) (width / 2)).map
          (rotatedPolygon · degrees .dark)), b, []⟩ := by
  have hzero : max (inner / 2) 0 = Scalar.greater (inner / 2) (Nat.cast 0) := by
    rw [Scalar.greater_eq_max, Nat.cast_zero]
  rw [Primitive.shapes, pointValue_bind hx hy, value_bind houter, value_bind hinner,
    value_bind hgap, value_bind hrotation, hzero]
  by_cases hdegenerate : outer / 2 ≤ Scalar.greater (inner / 2) (Nat.cast 0) ∨
      outer / 2 ≤ width / 2
  · rw [if_pos hdegenerate]
    exact congrFun (if_pos hdegenerate) b
  · rw [if_neg hdegenerate]
    exact congrFun (if_neg hdegenerate) b

/-- **Thermals are clear of their gaps.** The hole and the gap of a thermal are not of negative
width, and it is not passed over as degenerate. Then its shapes are four sectors. Their vertices are
on the ring and clear of the gaps if and only if the gap is at most `1 / √2` times as wide as the
thermal, and also as the hole if it is narrower than that. -/
theorem clearOfGaps_shapes_iff (hx : x.eval b = .ok center.x) (hy : y.eval b = .ok center.y)
    (houter : outerDiameter.eval b = .ok outer) (hinner : innerDiameter.eval b = .ok inner)
    (hgap : gap.eval b = .ok width) (hrotation : rotation.eval b = .ok degrees)
    (hinside : 0 ≤ inner) (hwidth : 0 ≤ width)
    (haccepted : ((Primitive.thermal x y outerDiameter innerDiameter gap rotation).shapes name
      b).warnings = []) :
    let sectors := thermalSectors center (outer / 2) (inner / 2) (width / 2)
    ((Primitive.thermal x y outerDiameter innerDiameter gap rotation).shapes name b).result =
        .ok (sectors.map (rotatedPolygon · degrees .dark)) ∧
      ((∀ sector ∈ sectors, ∀ p ∈ sector,
          ClearOfGaps center (outer / 2) (inner / 2) (width / 2) p) ↔
        √2 * width ≤ outer ∧ (width < inner → √2 * width ≤ inner)) := by
  intro sectors
  have hshapes := shapes_thermal name hx hy houter hinner hgap hrotation
  rw [max_eq_left (div_nonneg hinside two_pos.le)] at hshapes
  by_cases hdegenerate : outer / 2 ≤ inner / 2 ∨ outer / 2 ≤ width / 2
  · rw [if_pos hdegenerate] at hshapes
    rw [hshapes] at haccepted
    cases haccepted
  · rw [if_neg hdegenerate] at hshapes
    obtain ⟨hring, hnarrow⟩ := not_or.mp hdegenerate
    refine ⟨by rw [hshapes], ?_⟩
    have hradii := clearOfGaps_thermalSectors_iff center
      (div_nonneg hinside two_pos.le) (div_nonneg hwidth two_pos.le) (not_le.mp hring)
      (not_le.mp hnarrow)
    rw [hradii, div_lt_div_iff_of_pos_right two_pos, ← mul_div_assoc,
      div_le_div_iff_of_pos_right two_pos, div_le_div_iff_of_pos_right two_pos]

end

/-- A thermal around the origin. -/
noncomputable def originThermal (outer inner width : ℝ) : Primitive ℝ :=
  .thermal (.constant 0) (.constant 0) (.constant outer) (.constant inner) (.constant width)
    (.constant 0)

/-- A thermal whose sizes are accepted has no warnings. -/
theorem shapes_originThermal {outer inner width : ℝ} {b : Bindings ℝ} {name : String}
    (hinner : 0 ≤ inner) (hring : inner < outer) (hwidth : width < outer) :
    ((originThermal outer inner width).shapes name b).warnings = [] := by
  have hcenter : (Expression.constant (0 : ℝ)).eval b = .ok (⟨0, 0⟩ : Point ℝ).x := rfl
  rw [originThermal, shapes_thermal name hcenter rfl rfl rfl rfl rfl, if_neg]
  rw [max_eq_left (div_nonneg hinner two_pos.le), div_le_div_iff_of_pos_right two_pos,
    div_le_div_iff_of_pos_right two_pos]
  exact not_or.mpr ⟨not_le.mpr hring, not_le.mpr hwidth⟩

/-- The gap is a tenth as wide as the thermal and a fifth as wide as the hole. -/
theorem clearOfGaps_narrowGap :
    ((originThermal 2 1 (1 / 5)).shapes "M" (.ofParameters [])).warnings = [] ∧
      ∀ sector ∈ thermalSectors ⟨0, 0⟩ ((2 : ℝ) / 2) (1 / 2) (1 / 5 / 2), ∀ p ∈ sector,
        ClearOfGaps ⟨0, 0⟩ (2 / 2) (1 / 2) (1 / 5 / 2) p := by
  have haccepted : ((originThermal 2 1 (1 / 5)).shapes "M" (.ofParameters [])).warnings = [] :=
    shapes_originThermal (by norm_num) (by norm_num) (by norm_num)
  have hroot : √2 ≤ (2 : ℝ) := sqrt_le_iff.mpr (by norm_num)
  have hcenter : (Expression.constant (0 : ℝ)).eval (.ofParameters []) =
      .ok (⟨0, 0⟩ : Point ℝ).x := rfl
  refine ⟨haccepted, (clearOfGaps_shapes_iff hcenter rfl rfl rfl rfl rfl (by norm_num)
    (by norm_num) haccepted).2.mpr ⟨?_, fun _ => ?_⟩⟩
  · linarith
  · linarith

/-- Two thermals that are not passed over although vertices of them are inside of the gaps. The gap
of the first one is nearly as wide as its hole, and that of the second one as the thermal. -/
theorem not_clearOfGaps_wideGap :
    (((originThermal 4 2 (8 / 5)).shapes "M" (.ofParameters [])).warnings = [] ∧
      ¬ ∀ sector ∈ thermalSectors ⟨0, 0⟩ (2 : ℝ) 1 (4 / 5), ∀ p ∈ sector,
        ClearOfGaps ⟨0, 0⟩ 2 1 (4 / 5) p) ∧
    ((originThermal 2 1 (8 / 5)).shapes "M" (.ofParameters [])).warnings = [] ∧
      ¬ ∀ sector ∈ thermalSectors ⟨0, 0⟩ (1 : ℝ) (1 / 2) (4 / 5), ∀ p ∈ sector,
        ClearOfGaps ⟨0, 0⟩ 1 (1 / 2) (4 / 5) p := by
  have hroot : (5 / 4 : ℝ) < √2 := lt_sqrt_of_sq_lt (by norm_num)
  refine ⟨⟨shapes_originThermal (by norm_num) (by norm_num) (by norm_num), fun h => ?_⟩,
    shapes_originThermal (by norm_num) (by norm_num) (by norm_num), fun h => ?_⟩
  · obtain ⟨-, hhole⟩ := (clearOfGaps_thermalSectors_iff _ (by norm_num) (by norm_num) (by norm_num)
      (by norm_num)).mp h
    have hover := hhole (by norm_num)
    linarith
  · obtain ⟨hover, -⟩ := (clearOfGaps_thermalSectors_iff _ (by norm_num) (by norm_num) (by norm_num)
      (by norm_num)).mp h
    linarith

end Photoplot
