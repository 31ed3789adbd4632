import Mathlib.Analysis.Complex.Angle
import Photoplot.Geometry.Outline
import Photoplot.Scalar.Real

/-!
# Walks that Turn Once

A closed walk in the plane that only ever turns to one side has no dents, but it may go around
several times before it closes. This module is about walks that go around once: all turns together
make no more than a full turn. The direction of every step then is that of the first one and the
turns since, so two steps that are at most half a turn apart are never crossed the wrong way.

From that follow the two facts that triangle fans rest on. All triangles that the first point of
the walk forms with its steps turn to the side of the walk, and seen from that point no two of them
overlap.

## Side convention

A side is `1` for the left and `-1` for the right. Angles are measured to the side of the walk, so
that a turn is never negative.

## Main definitions

* `turnAngle`: the angle of a turn.
* `TurnsOnce`: a closed walk that turns to one side, and once around at most.

## Main results

* `TurnsOnce.exists_heading`: the direction of a step.
* `TurnsOnce.not_alternating`: no line is crossed more than twice.
* `TurnsOnce.fan_nonneg`: the triangles over a walk turn to its side.
* `TurnsOnce.fan_disjoint`: no two of them overlap.
-/

namespace Photoplot.Outline

open Real InnerProductGeometry Finset

/-! ### Vectors -/

/-- The vector from the origin to a point. -/
def toComplex (p : Point ℝ) : ℂ := ⟨p.x, p.y⟩

/-- The vector between two points is zero if the points are equal. -/
theorem toComplex_sub_eq_zero {p q : Point ℝ} : toComplex (q - p) = 0 ↔ q = p := by
  obtain ⟨px, py⟩ := p
  obtain ⟨qx, qy⟩ := q
  show (⟨qx - px, qy - py⟩ : ℂ) = 0 ↔ _
  rw [Complex.ext_iff, Point.mk.injEq]
  exact and_congr sub_eq_zero sub_eq_zero

/-- The inner product of vectors in coordinates. -/
theorem inner_toComplex (d e : Point ℝ) :
    inner ℝ (toComplex d) (toComplex e) = d.x * e.x + d.y * e.y := by
  rw [Complex.inner, toComplex, toComplex, Complex.mul_re, Complex.conj_re, Complex.conj_im]
  ring

/-- The square of the norm of a vector in coordinates. -/
theorem norm_mul_norm_toComplex (d : Point ℝ) :
    ‖toComplex d‖ * ‖toComplex d‖ = d.x * d.x + d.y * d.y := by
  rw [← real_inner_self_eq_norm_mul_norm, inner_toComplex]

/-- The cosine of the angle of two vectors comes from their inner product. -/
theorem cos_angle_toComplex (d e : Point ℝ) :
    cos (angle (toComplex d) (toComplex e)) * (‖toComplex d‖ * ‖toComplex e‖) =
      d.x * e.x + d.y * e.y := by
  rw [cos_angle_mul_norm_mul_norm, inner_toComplex]

/-- The sine of the angle of two vectors comes from their cross product. -/
theorem sin_angle_toComplex (d e : Point ℝ) :
    sin (angle (toComplex d) (toComplex e)) * (‖toComplex d‖ * ‖toComplex e‖) = |cross d e| := by
  have hsq : (d.x * d.x + d.y * d.y) * (e.x * e.x + e.y * e.y) -
      (d.x * e.x + d.y * e.y) * (d.x * e.x + d.y * e.y) = (d.x * e.y - e.x * d.y) ^ 2 := by
    ring
  rw [sin_angle_mul_norm_mul_norm, inner_toComplex, inner_toComplex, inner_toComplex, hsq,
    sqrt_sq_eq_abs]
  rfl

/-- The cross product is additive. -/
theorem cross_sub_left (p q r d : Point ℝ) :
    cross (r - p) d = cross (q - p) d + cross (r - q) d := by
  show (r.x - p.x) * d.y - d.x * (r.y - p.y) =
    (q.x - p.x) * d.y - d.x * (q.y - p.y) + ((r.x - q.x) * d.y - d.x * (r.y - q.y))
  ring

/-- The cross product changes its sign with the order. -/
theorem cross_comm (d e : Point ℝ) : cross d e = -cross e d := by
  show d.x * e.y - e.x * d.y = -(e.x * d.y - d.x * e.y)
  ring

/-- A turn is the cross product of its two steps. -/
theorem turn_eq_cross (p q r : Point ℝ) : turn p q r = cross (q - p) (r - q) := by
  show (q.x - p.x) * (r.y - q.y) - (q.y - p.y) * (r.x - q.x) =
    (q.x - p.x) * (r.y - q.y) - (r.x - q.x) * (q.y - p.y)
  ring

/-- A turn is the cross product of the vectors from its first point. -/
theorem turn_eq_cross_left (p q r : Point ℝ) : turn p q r = cross (q - p) (r - p) := by
  show (q.x - p.x) * (r.y - q.y) - (q.y - p.y) * (r.x - q.x) =
    (q.x - p.x) * (r.y - p.y) - (r.x - p.x) * (q.y - p.y)
  ring

/-! ### Directions -/

section

variable {side : ℝ}

/-- A side is its own inverse. -/
theorem side_mul_self (hside : side = 1 ∨ side = -1) : side * side = 1 := by
  rcases hside with rfl | rfl
  · exact one_mul 1
  · rw [neg_one_mul, neg_neg]

/-- The cosine does not depend on the side. -/
theorem cos_side (hside : side = 1 ∨ side = -1) (a : ℝ) : cos (side * a) = cos a := by
  rcases hside with rfl | rfl
  · rw [one_mul]
  · rw [neg_one_mul, cos_neg]

/-- The sine changes its sign with the side. -/
theorem sin_side (hside : side = 1 ∨ side = -1) (a : ℝ) : sin (side * a) = side * sin a := by
  rcases hside with rfl | rfl
  · rw [one_mul, one_mul]
  · rw [neg_one_mul, sin_neg, neg_one_mul]

/-- Two vectors at angles that are measured to the same side. -/
theorem cross_polar (hside : side = 1 ∨ side = -1) (r r' a b : ℝ) :
    side * cross (.polar r (side * a)) (.polar r' (side * b)) = r * r' * sin (b - a) := by
  show side * (r * cos (side * a) * (r' * sin (side * b)) -
    r' * cos (side * b) * (r * sin (side * a))) = r * r' * sin (b - a)
  rw [cos_side hside, cos_side hside, sin_side hside, sin_side hside, sin_sub]
  calc side * (r * cos a * (r' * (side * sin b)) - r' * cos b * (r * (side * sin a)))
      = side * side * (r * r' * (sin b * cos a - cos b * sin a)) := by ring
    _ = r * r' * (sin b * cos a - cos b * sin a) := by rw [side_mul_self hside, one_mul]

/-- Every vector has an angle measured to a side. -/
theorem exists_eq_polar (hside : side = 1 ∨ side = -1) (d : Point ℝ) :
    ∃ a, d = .polar ‖toComplex d‖ (side * a) := by
  refine ⟨side * (toComplex d).arg, ?_⟩
  rw [← mul_assoc, side_mul_self hside, one_mul]
  show d = ⟨‖toComplex d‖ * cos _, ‖toComplex d‖ * sin _⟩
  rw [Complex.norm_mul_cos_arg, Complex.norm_mul_sin_arg]
  rfl

/-- What is not negative to a side is its absolute value there. -/
theorem abs_eq_side_mul (hside : side = 1 ∨ side = -1) {a : ℝ} (h : 0 ≤ side * a) :
    |a| = side * a := by
  rcases hside with rfl | rfl
  · rw [one_mul] at h ⊢
    exact abs_of_nonneg h
  · rw [neg_one_mul] at h ⊢
    exact abs_of_nonpos (neg_nonneg.mp h)

/-- The coordinates of a vector by its products with another one. -/
theorem norm_mul_coordinates (d e : Point ℝ) :
    ‖toComplex d‖ * ‖toComplex d‖ * e.x = d.x * (d.x * e.x + d.y * e.y) - d.y * cross d e ∧
      ‖toComplex d‖ * ‖toComplex d‖ * e.y = d.y * (d.x * e.x + d.y * e.y) + d.x * cross d e := by
  rw [norm_mul_norm_toComplex, show cross d e = d.x * e.y - e.x * d.y from rfl]
  constructor <;> ring

/-- **A turn** to a side adds its angle to the direction. -/
theorem eq_polar_of_turn (hside : side = 1 ∨ side = -1) {d e : Point ℝ} {a : ℝ}
    (hd : toComplex d ≠ 0) (hpolar : d = .polar ‖toComplex d‖ (side * a))
    (hturn : 0 ≤ side * cross d e) :
    e = .polar ‖toComplex e‖ (side * (a + angle (toComplex d) (toComplex e))) := by
  set α := angle (toComplex d) (toComplex e) with hα
  have hsquare := side_mul_self hside
  have hx : d.x = ‖toComplex d‖ * cos a := by
    rw [← cos_side hside]
    exact congrArg Point.x hpolar
  have hy : d.y = ‖toComplex d‖ * (side * sin a) := by
    rw [← sin_side hside]
    exact congrArg Point.y hpolar
  have hdot := cos_angle_toComplex d e
  have hcross : side * sin α * (‖toComplex d‖ * ‖toComplex e‖) = cross d e := by
    rw [mul_assoc, hα, sin_angle_toComplex, abs_eq_side_mul hside hturn, ← mul_assoc, hsquare,
      one_mul]
  have hpos : ‖toComplex d‖ * ‖toComplex d‖ ≠ 0 := mul_self_ne_zero.mpr (norm_ne_zero_iff.mpr hd)
  obtain ⟨hcoordinate, hcoordinate'⟩ := norm_mul_coordinates d e
  rw [← hdot, ← hcross, hx, hy] at hcoordinate hcoordinate'
  -- Both coordinates of `e` follow from its products with `d`, which is not zero.
  have hex : e.x = ‖toComplex e‖ * cos (a + α) := by
    refine mul_left_cancel₀ hpos (hcoordinate.trans ?_)
    rw [cos_add]
    linear_combination -‖toComplex d‖ ^ 2 * ‖toComplex e‖ * sin a * sin α * hsquare
  have hey : e.y = ‖toComplex e‖ * (side * sin (a + α)) := by
    refine mul_left_cancel₀ hpos (hcoordinate'.trans ?_)
    rw [sin_add]
    ring
  show e = ⟨‖toComplex e‖ * cos (side * (a + α)), ‖toComplex e‖ * sin (side * (a + α))⟩
  rw [cos_side hside, sin_side hside, ← hex, ← hey]

end

/-- In a full turn the sine changes its sign twice, not three times. -/
theorem not_alternating {a b c d : ℝ} (hab : b ≤ a) (hbc : c ≤ b) (hcd : d ≤ c)
    (hfull : a - d ≤ 2 * π) : ¬ (0 < sin a ∧ sin b < 0 ∧ 0 < sin c ∧ sin d < 0) := by
  rintro ⟨ha, hb, hc, hd⟩
  obtain ⟨m, ⟨hlow, hhigh⟩, -⟩ := existsUnique_sub_zsmul_mem_Ioc two_pi_pos a (-π)
  have hshift (x : ℝ) : sin (x - m • (2 * π)) = sin x := by
    rw [zsmul_eq_mul]
    exact sin_sub_int_mul_two_pi x m
  generalize m • (2 * π) = s at hshift hlow hhigh
  have hapos : 0 < a - s := by
    by_contra hneg
    have := sin_nonpos_of_nonpos_of_neg_pi_le (not_lt.mp hneg) hlow.le
    linarith [hshift a]
  have hbneg : b - s < 0 := by
    by_contra hnonneg
    have := sin_nonneg_of_nonneg_of_le_pi (not_lt.mp hnonneg) (by linarith)
    linarith [hshift b]
  have hcneg : c - s < -π := by
    by_contra hle
    have := sin_nonpos_of_nonpos_of_neg_pi_le (by linarith) (not_lt.mp hle)
    linarith [hshift c]
  have hdpos := sin_nonneg_of_nonneg_of_le_pi (x := d - s + 2 * π) (by linarith) (by linarith)
  rw [sin_add_two_pi] at hdpos
  linarith [hshift d]

/-! ### Walks -/

/-- The angle, between none and half a turn, by which the direction changes at the second of three
points. Left and right are not told apart. -/
noncomputable def turnAngle (p q r : Point ℝ) : ℝ :=
  angle (toComplex (q - p)) (toComplex (r - q))

/-- The direction of the step from a point of a walk, if that of its first step is `start`. -/
noncomputable def heading (v : ℕ → Point ℝ) (start : ℝ) (k : ℕ) : ℝ :=
  start + ∑ j ∈ range k, turnAngle (v j) (v (j + 1)) (v (j + 2))

/-- A closed walk that never stays where it is, only turns to one side, and that at most once
around. The side is `1` for the left and `-1` for the right. -/
structure TurnsOnce (v : ℕ → Point ℝ) (count : ℕ) (side : ℝ) : Prop where
  side_eq : side = 1 ∨ side = -1
  closed : v count = v 0
  moves : ∀ k < count, v (k + 1) ≠ v k
  turn_nonneg : ∀ k, k + 1 < count → 0 ≤ side * turn (v k) (v (k + 1)) (v (k + 2))
  sum_le : ∑ k ∈ range (count - 1), turnAngle (v k) (v (k + 1)) (v (k + 2)) ≤ 2 * π

section

variable {v : ℕ → Point ℝ} {count : ℕ} {side start : ℝ} {i j k : ℕ}

/-- Headings only ever grow. -/
theorem heading_mono (v : ℕ → Point ℝ) (start : ℝ) : Monotone (heading v start) := by
  refine monotone_nat_of_le_succ fun k => ?_
  rw [heading, heading, sum_range_succ, ← add_assoc]
  exact le_add_of_nonneg_right (angle_nonneg _ _)

/-- Two headings are a full turn apart at most. -/
theorem TurnsOnce.heading_sub_le (h : TurnsOnce v count side) (hk : k < count) :
    heading v start k - heading v start j ≤ 2 * π := by
  have hlast := heading_mono v start (Nat.le_sub_one_of_lt hk)
  have hfirst := heading_mono v start (Nat.zero_le j)
  have htotal : heading v start (count - 1) - heading v start 0 ≤ 2 * π := by
    rw [heading, heading, range_zero, sum_empty, add_zero, add_sub_cancel_left]
    exact h.sum_le
  linarith

/-- The directions of all steps are found by adding up the turns. -/
theorem TurnsOnce.exists_heading (h : TurnsOnce v count side) : ∃ start, ∀ k < count,
    v (k + 1) - v k =
      .polar ‖toComplex (v (k + 1) - v k)‖ (side * heading v start k) := by
  obtain ⟨start, hstart⟩ := exists_eq_polar h.side_eq (v 1 - v 0)
  refine ⟨start, fun k hk => ?_⟩
  induction k with
  | zero =>
      rw [heading, range_zero, sum_empty, add_zero]
      exact hstart
  | succ k ih =>
      have hmoves : toComplex (v (k + 1) - v k) ≠ 0 :=
        fun hzero => h.moves k (by omega) (toComplex_sub_eq_zero.mp hzero)
      have hturn := h.turn_nonneg k hk
      rw [turn_eq_cross] at hturn
      have hnext := eq_polar_of_turn h.side_eq hmoves (ih (by omega)) hturn
      rwa [heading, sum_range_succ, ← add_assoc]

/-- What the steps between two points of a walk contribute to a cross product. -/
theorem sum_cross_step (v : ℕ → Point ℝ) (d : Point ℝ) (hij : i ≤ j) :
    ∑ k ∈ Ico i j, cross (v (k + 1) - v k) d = cross (v j - v i) d := by
  induction j, hij using Nat.le_induction with
  | base =>
      rw [Ico_self, sum_empty]
      show 0 = (_ - _) * _ - _ * (_ - _)
      rw [sub_self, sub_self, zero_mul, mul_zero, sub_zero]
  | succ j hij ih => rw [sum_Ico_succ_top hij, ih, ← cross_sub_left]

/-- Steps whose directions are at most half a turn apart. -/
theorem TurnsOnce.cross_step_nonneg (h : TurnsOnce v count side)
    (hstart : ∀ k < count, v (k + 1) - v k =
      .polar ‖toComplex (v (k + 1) - v k)‖ (side * heading v start k))
    (hij : i ≤ j) (hj : j < count) (hhalf : heading v start j - heading v start i ≤ π) :
    0 ≤ side * cross (v (i + 1) - v i) (v (j + 1) - v j) := by
  rw [hstart i (by omega), hstart j hj, cross_polar h.side_eq]
  have hsin := sin_nonneg_of_nonneg_of_le_pi
    (sub_nonneg.mpr (heading_mono v start hij)) hhalf
  positivity

/-- **A fan over a walk** only has triangles that turn to the side of the walk. -/
theorem TurnsOnce.fan_nonneg (h : TurnsOnce v count side) (hk : k < count) :
    0 ≤ side * turn (v 0) (v k) (v (k + 1)) := by
  obtain ⟨start, hstart⟩ := h.exists_heading
  rw [turn_eq_cross]
  by_cases hhalf : heading v start k - heading v start 0 ≤ π
  · -- All steps before are at most half a turn behind.
    rw [← sum_cross_step v _ (Nat.zero_le k), mul_sum]
    refine sum_nonneg fun j hj => ?_
    obtain ⟨-, hj⟩ := mem_Ico.mp hj
    have hfirst := heading_mono v start (Nat.zero_le j)
    exact h.cross_step_nonneg hstart hj.le hk (by linarith)
  · -- All steps after are at most half a turn ahead, and lead back to the first point.
    have hback : cross (v k - v 0) (v (k + 1) - v k) =
        -∑ j ∈ Ico k count, cross (v (j + 1) - v j) (v (k + 1) - v k) := by
      rw [sum_cross_step v _ hk.le, h.closed]
      show (_ - _) * _ - _ * (_ - _) = -((_ - _) * _ - _ * (_ - _))
      ring
    rw [hback, mul_neg, mul_sum, ← sum_neg_distrib]
    refine sum_nonneg fun j hj => ?_
    obtain ⟨hkj, hj⟩ := mem_Ico.mp hj
    have hturn : heading v start j - heading v start 0 ≤ 2 * π := h.heading_sub_le hj
    have hnonneg := h.cross_step_nonneg hstart hkj hj (by linarith)
    rwa [← mul_neg, ← cross_comm]

/-- A walk that turns once crosses no line more than twice. -/
theorem TurnsOnce.not_alternating (h : TurnsOnce v count side) (d : Point ℝ) {k₁ k₂ k₃ k₄ : ℕ}
    (h₁₂ : k₁ ≤ k₂) (h₂₃ : k₂ ≤ k₃) (h₃₄ : k₃ ≤ k₄) (h₄ : k₄ < count) :
    ¬ (0 < side * cross (v (k₁ + 1) - v k₁) d ∧ side * cross (v (k₂ + 1) - v k₂) d < 0 ∧
      0 < side * cross (v (k₃ + 1) - v k₃) d ∧ side * cross (v (k₄ + 1) - v k₄) d < 0) := by
  obtain ⟨start, hstart⟩ := h.exists_heading
  obtain ⟨a, ha⟩ := exists_eq_polar h.side_eq d
  have hcross (k : ℕ) (hk : k < count) : side * cross (v (k + 1) - v k) d =
      ‖toComplex (v (k + 1) - v k)‖ * ‖toComplex d‖ * sin (a - heading v start k) := by
    conv_lhs => rw [hstart k hk, ha, cross_polar h.side_eq]
  rw [hcross k₁ (by omega), hcross k₂ (by omega), hcross k₃ (by omega), hcross k₄ h₄]
  rintro ⟨hpos₁, hneg₂, hpos₃, hneg₄⟩
  have hnonneg (k : ℕ) : 0 ≤ ‖toComplex (v (k + 1) - v k)‖ * ‖toComplex d‖ := by positivity
  have hmono {i j : ℕ} (hij : i ≤ j) : a - heading v start j ≤ a - heading v start i :=
    sub_le_sub_left (heading_mono v start hij) a
  have hturn : heading v start k₄ - heading v start k₁ ≤ 2 * π := h.heading_sub_le h₄
  exact Outline.not_alternating (hmono h₁₂) (hmono h₂₃) (hmono h₃₄) (by linarith)
    ⟨pos_of_mul_pos_right hpos₁ (hnonneg k₁), neg_of_mul_neg_right hneg₂ (hnonneg k₂),
      pos_of_mul_pos_right hpos₃ (hnonneg k₃), neg_of_mul_neg_right hneg₄ (hnonneg k₄)⟩

/-- If the way from one point of a walk to a later one crosses a vector to a side, one of the steps
does. -/
theorem exists_cross_step_pos {d : Point ℝ} (hij : i ≤ j) (hpos : 0 < side * cross (v j - v i) d) :
    ∃ k, i ≤ k ∧ k < j ∧ 0 < side * cross (v (k + 1) - v k) d := by
  by_contra hnone
  push Not at hnone
  rw [← sum_cross_step v d hij, mul_sum] at hpos
  refine hpos.not_ge (sum_nonpos fun k hk => ?_)
  obtain ⟨hik, hkj⟩ := mem_Ico.mp hk
  exact hnone k hik hkj

/-- **The triangles of a fan** are disjoint, seen from their common corner. -/
theorem TurnsOnce.fan_disjoint (h : TurnsOnce v count side) (d : Point ℝ) (hij : i < j)
    (hj : j < count) :
    ¬ ((0 < side * cross (v i - v 0) d ∧ side * cross (v (i + 1) - v 0) d < 0) ∧
      0 < side * cross (v j - v 0) d ∧ side * cross (v (j + 1) - v 0) d < 0) := by
  rintro ⟨⟨hi, hi'⟩, hj₀, hj'⟩
  have hstep (a b : ℕ) : side * cross (v b - v a) d =
      side * cross (v b - v 0) d - side * cross (v a - v 0) d := by
    rw [cross_sub_left (v 0) (v a) (v b) d]
    ring
  obtain ⟨k₁, -, hk₁, hpos₁⟩ := exists_cross_step_pos (Nat.zero_le i) hi
  have hback : 0 < side * cross (v j - v (i + 1)) d := by
    rw [hstep]
    linarith
  obtain ⟨k₃, hk₃, hk₃', hpos₃⟩ := exists_cross_step_pos (Nat.succ_le_of_lt hij) hback
  refine h.not_alternating d hk₁.le (by omega) hk₃'.le hj ⟨hpos₁, ?_, hpos₃, ?_⟩
  · rw [hstep]
    linarith
  · rw [hstep]
    linarith

end

end Photoplot.Outline
