import Mathlib.Analysis.SpecialFunctions.Complex.Arg
import Photoplot.Proofs.TransformLaws

/-!
# Sweeps

Going around a centre from one point to another, in a given direction, one **sweeps** an angle of at
most a full turn. This module says what that angle is without an arc tangent, that there is no other
one, and that the span about a centre has it.

Everything here is about the real numbers.

## Sweep convention

A clockwise sweep is negative, a counter-clockwise one positive, and a sweep is never nothing. It
is measured between the two rays from the centre, so the points need not be equally far away from
it. On the same ray the sweep is a full turn. Where the centre is itself one of the two points,
every sweep goes from one to the other.

## Main definitions

* `Direction.Allows`: a sweep goes in a direction.
* `TurnedBy`, `Sweeps`: an angle from one point to another, and a sweep in a direction.

## Main results

* `TurnedBy.exists_turns`: angles from one point to another are full turns apart.
* `Sweeps.unique`: there is at most one sweep in a direction.
* `Segment.sweeps_spanAbout`: the sweep of the span about a centre.
-/

namespace Photoplot

open Real

/-! ### Polar coordinates -/

namespace Point

/-- The distance of points is the norm of their difference. -/
theorem distance_eq_norm (p q : Point ℝ) : p.distance q = ‖(⟨q.x - p.x, q.y - p.y⟩ : ℂ)‖ :=
  (Complex.norm_eq_sqrt_sq_add_sq ⟨q.x - p.x, q.y - p.y⟩).symm

/-- The distance is symmetric. -/
protected theorem distance_comm (p q : Point ℝ) : p.distance q = q.distance p := by
  show √((q.x - p.x) ^ 2 + (q.y - p.y) ^ 2) = √((p.x - q.x) ^ 2 + (p.y - q.y) ^ 2)
  rw [sub_sq_comm q.x, sub_sq_comm q.y]

/-- The square of the distance in coordinates. -/
theorem sq_distance (p q : Point ℝ) : p.distance q ^ 2 = (q.x - p.x) ^ 2 + (q.y - p.y) ^ 2 :=
  sq_sqrt (add_nonneg (sq_nonneg _) (sq_nonneg _))

/-- The distance in coordinates without signs. -/
theorem distance_eq_sqrt_abs (p q : Point ℝ) :
    p.distance q = √(|p.x - q.x| ^ 2 + |p.y - q.y| ^ 2) := by
  rw [sq_abs, sq_abs, sub_sq_comm p.x, sub_sq_comm p.y]
  rfl

/-- The distance of points at one height. -/
theorem distance_horizontal (a b y : ℝ) : Point.distance ⟨a, y⟩ ⟨b, y⟩ = |b - a| := by
  rw [distance_eq_sqrt_abs, sub_self, abs_zero, zero_pow two_ne_zero, add_zero,
    sqrt_sq (abs_nonneg _), abs_sub_comm]

/-- Points without distance are one point. -/
theorem distance_eq_zero_iff {p q : Point ℝ} : p.distance q = 0 ↔ p = q := by
  obtain ⟨px, py⟩ := p
  obtain ⟨qx, qy⟩ := q
  rw [distance_eq_norm, norm_eq_zero, Complex.ext_iff, Point.mk.injEq]
  exact and_congr (sub_eq_zero.trans eq_comm) (sub_eq_zero.trans eq_comm)

/-- A point by its distance and direction from a centre. -/
theorem eq_add_polar (center p : Point ℝ) :
    p = center + .polar (center.distance p) (center.angleFrom p) := by
  rw [distance_eq_norm]
  refine Point.ext ?_ ?_
  · exact (add_sub_cancel center.x p.x).symm.trans
      (congrArg (center.x + ·) (Complex.norm_mul_cos_arg ⟨p.x - center.x, p.y - center.y⟩).symm)
  · exact (add_sub_cancel center.y p.y).symm.trans
      (congrArg (center.y + ·) (Complex.norm_mul_sin_arg ⟨p.x - center.x, p.y - center.y⟩).symm)

/-- From one centre, equal points have equal offsets. -/
theorem eq_of_add_eq_add {center v w : Point ℝ} (h : center + v = center + w) : v = w :=
  Point.ext (add_left_cancel (congrArg Point.x h)) (add_left_cancel (congrArg Point.y h))

/-- Without radius every angle gives the origin. -/
theorem polar_zero (angle : ℝ) : polar 0 angle = ⟨0, 0⟩ :=
  Point.ext (zero_mul _) (zero_mul _)

/-- Full turns do not change a point. -/
theorem polar_add_turns (radius angle : ℝ) (turns : ℤ) :
    polar radius (angle + turns * (2 * π)) = polar radius angle := by
  refine Point.ext ?_ ?_
  · rw [x_polar, x_polar, cos_add_int_mul_two_pi]
  · rw [y_polar, y_polar, sin_add_int_mul_two_pi]

/-- Angles of the same point are full turns apart. -/
theorem exists_turns_of_polar_eq {radius a b : ℝ} (hradius : radius ≠ 0)
    (h : polar radius a = polar radius b) : ∃ turns : ℤ, a = b + turns * (2 * π) := by
  obtain ⟨hcos, hsin⟩ := Point.mk.inj h
  have hangle : (a : Angle) = b :=
    Angle.cos_sin_inj (mul_left_cancel₀ hradius hcos) (mul_left_cancel₀ hradius hsin)
  obtain ⟨turns, hturns⟩ := Angle.angle_eq_iff_two_pi_dvd_sub.mp hangle
  exact ⟨turns, by linarith⟩

end Point

/-- Of all whole turns only none is less than a full one. -/
theorem eq_zero_of_turns {angle : ℝ} {turns : ℤ} (h : angle = turns * (2 * π))
    (hless : |angle| < 2 * π) : angle = 0 := by
  rw [h, abs_mul, abs_of_pos two_pi_pos, ← Int.cast_abs] at hless
  have hone : ((|turns| : ℤ) : ℝ) < (1 : ℤ) := by
    rw [Int.cast_one]
    exact lt_of_mul_lt_mul_right (hless.trans_eq (one_mul _).symm) two_pi_pos.le
  rw [h, Int.abs_lt_one_iff.mp (Int.cast_lt.mp hone), Int.cast_zero, zero_mul]

/-! ### Directions -/

/-- A sweep goes in a direction, by a full turn at most. -/
def Direction.Allows : Direction → ℝ → Prop
  | .clockwise, sweep => -(2 * π) ≤ sweep ∧ sweep < 0
  | .counterClockwise, sweep => 0 < sweep ∧ sweep ≤ 2 * π

namespace Direction

variable {direction : Direction} {sweep other : ℝ}

/-- A sweep is a full turn at most. -/
theorem Allows.abs_le (h : direction.Allows sweep) : |sweep| ≤ 2 * π := by
  cases direction with
  | clockwise => exact abs_le.mpr ⟨h.1, h.2.le.trans two_pi_pos.le⟩
  | counterClockwise => exact abs_le.mpr ⟨by linarith [h.1, two_pi_pos], h.2⟩

/-- Two sweeps in a direction are less than a full turn apart. -/
theorem Allows.abs_sub_lt (h : direction.Allows sweep) (hother : direction.Allows other) :
    |sweep - other| < 2 * π := by
  rw [abs_lt]
  cases direction with
  | clockwise => exact ⟨by linarith [h.1, hother.2], by linarith [h.2, hother.1]⟩
  | counterClockwise => exact ⟨by linarith [h.1, hother.2], by linarith [h.2, hother.1]⟩

/-- Two sweeps in a direction do not cancel out. -/
theorem Allows.add_ne_zero (h : direction.Allows sweep) (hother : direction.Allows other) :
    sweep + other ≠ 0 := by
  cases direction with
  | clockwise => exact (add_neg h.2 hother.2).ne
  | counterClockwise => exact (add_pos h.1 hother.1).ne'

end Direction

/-! ### Sweeps -/

/-- Turning the ray from a centre through `p` by an angle makes it the ray through `q`. -/
def TurnedBy (center p q : Point ℝ) (angle : ℝ) : Prop :=
  ∃ start, p = center + .polar (center.distance p) start ∧
    q = center + .polar (center.distance q) (start + angle)

/-- The **sweep** about a centre from the ray through `p` to that through `q`, in a direction. -/
structure Sweeps (center : Point ℝ) (direction : Direction) (p q : Point ℝ) (sweep : ℝ) :
    Prop where
  allows : direction.Allows sweep
  turnedBy : TurnedBy center p q sweep

section

variable {center p q : Point ℝ} {direction : Direction} {a b : ℝ}

/-- Angles from one ray to another are full turns apart. -/
theorem TurnedBy.exists_turns (ha : TurnedBy center p q a) (hb : TurnedBy center p q b)
    (hp : center ≠ p) (hq : center ≠ q) : ∃ turns : ℤ, a - b = turns * (2 * π) := by
  obtain ⟨start, hstart, hstop⟩ := ha
  obtain ⟨start', hstart', hstop'⟩ := hb
  obtain ⟨m, hm⟩ := Point.exists_turns_of_polar_eq (mt Point.distance_eq_zero_iff.mp hp)
    (Point.eq_of_add_eq_add (hstart.symm.trans hstart'))
  obtain ⟨n, hn⟩ := Point.exists_turns_of_polar_eq (mt Point.distance_eq_zero_iff.mp hq)
    (Point.eq_of_add_eq_add (hstop.symm.trans hstop'))
  refine ⟨n - m, ?_⟩
  push_cast
  linarith

/-- **There is one sweep** in a direction, if the centre is neither of the points. -/
theorem Sweeps.unique (ha : Sweeps center direction p q a) (hb : Sweeps center direction p q b)
    (hp : center ≠ p) (hq : center ≠ q) : a = b := by
  obtain ⟨turns, hturns⟩ := ha.turnedBy.exists_turns hb.turnedBy hp hq
  exact sub_eq_zero.mp (eq_zero_of_turns hturns (ha.allows.abs_sub_lt hb.allows))

end

namespace Segment

/-- The clockwise sweep: the difference of the angles, less a full turn unless it is negative. -/
theorem sweep_clockwise (a b : ℝ) :
    sweep a b .clockwise = if 0 ≤ b - a then b - a - 2 * π else b - a := by
  rw [← Nat.cast_zero]
  rfl

/-- The counter-clockwise sweep: the difference of the angles, and a full turn unless it is
positive. -/
theorem sweep_counterClockwise (a b : ℝ) :
    sweep a b .counterClockwise = if b - a ≤ 0 then b - a + 2 * π else b - a := by
  rw [← Nat.cast_zero]
  rfl

/-- The sweep from one angle to another is their difference, but for a full turn. -/
theorem sweep_spec {a b : ℝ} (h : |b - a| < 2 * π) (direction : Direction) :
    direction.Allows (sweep a b direction) ∧
      ∃ turns : ℤ, sweep a b direction = b - a + turns * (2 * π) := by
  obtain ⟨hlow, hhigh⟩ := abs_lt.mp h
  cases direction with
  | clockwise =>
      rw [sweep_clockwise]
      split
      · exact ⟨⟨by linarith, by linarith⟩, -1, by push_cast; ring⟩
      · exact ⟨⟨hlow.le, not_le.mp ‹_›⟩, 0, by push_cast; ring⟩
  | counterClockwise =>
      rw [sweep_counterClockwise]
      split
      · exact ⟨⟨by linarith, by linarith⟩, 1, by push_cast; ring⟩
      · exact ⟨⟨not_le.mp ‹_›, hhigh.le⟩, 0, by push_cast; ring⟩

/-- **The span about a centre** sweeps from the start of a segment to its end. -/
theorem sweeps_spanAbout (s : Segment ℝ) (direction : Direction) (center : Point ℝ) :
    Sweeps center direction s.start s.stop (s.spanAbout direction center).sweepAngle := by
  have hstart : -π < center.angleFrom s.start ∧ center.angleFrom s.start ≤ π :=
    Complex.arg_mem_Ioc _
  have hstop : -π < center.angleFrom s.stop ∧ center.angleFrom s.stop ≤ π :=
    Complex.arg_mem_Ioc _
  have hless : |center.angleFrom s.stop - center.angleFrom s.start| < 2 * π :=
    abs_lt.mpr ⟨by linarith, by linarith⟩
  obtain ⟨hallows, turns, hturns⟩ := sweep_spec hless direction
  refine ⟨hallows, center.angleFrom s.start, center.eq_add_polar s.start, ?_⟩
  have hangle : center.angleFrom s.start + (s.spanAbout direction center).sweepAngle =
      center.angleFrom s.stop + turns * (2 * π) := by
    rw [show (s.spanAbout direction center).sweepAngle = _ from hturns]
    ring
  rw [hangle, Point.polar_add_turns]
  exact center.eq_add_polar s.stop

/-- The span about a centre that is neither the start nor the end, by its sweep. -/
theorem spanAbout_eq {s : Segment ℝ} {direction : Direction} {center : Point ℝ} {sweep : ℝ}
    (h : Sweeps center direction s.start s.stop sweep) (hstart : center ≠ s.start)
    (hstop : center ≠ s.stop) : s.spanAbout direction center =
      ⟨center, center.distance s.start, center.angleFrom s.start, sweep⟩ := by
  rw [h.unique (s.sweeps_spanAbout direction center) hstart hstop, center.distance_comm]
  rfl

end Segment

end Photoplot
