import Mathlib.Analysis.SpecialFunctions.Trigonometric.Bounds
import Photoplot.Proofs.QuadrantCenters

/-!
# Sampled Arcs

The outline of a region follows the points along a span, so these should lie on the arc that the
span sweeps: evenly spaced from its start to its end, in the direction of the command.

They do, unless the sweep counts as a full circle. A full circle always runs counter-clockwise, so a
clockwise full turn comes out reversed. And a sweep of less than `1e-10` counts as a full circle,
which a short segment about a distant centre can have although its end points are apart: where it
should have gone a hair's breadth, the outline runs all the way around.

Everything here is about the real numbers.

## Main definitions

* `Span.evenly`: points at evenly spaced angles along the sweep of a span.
* `Span.FollowsSweep`: the points along a span are such points.

## Main results

* `Segment.allows_of_mem_spans`: spans go in the direction of the command.
* `Span.points_eq`: the points along a span, by whether it counts as a full circle.
* `Span.followsSweep_iff`: which spans are followed by their points.
* `Segment.followsSweep_iff_of_mem_spans`: the same for the spans of a segment.
-/

namespace Photoplot

open Real

/-! ### The spans of a segment -/

/-- Half a turn in a direction. -/
noncomputable def Direction.halfTurn : Direction → ℝ
  | .clockwise => -π
  | .counterClockwise => π

/-- Half a turn in a direction is allowed by it. -/
theorem Direction.allows_halfTurn (direction : Direction) :
    direction.Allows direction.halfTurn := by
  have hle : π ≤ 2 * π := le_mul_of_one_le_left pi_pos.le one_le_two
  cases direction with
  | clockwise => exact ⟨neg_le_neg hle, neg_neg_of_pos pi_pos⟩
  | counterClockwise => exact ⟨pi_pos, hle⟩

namespace Segment

variable {s : Segment ℝ} {direction : Direction} {quadrant : Quadrant} {span : Span ℝ}

/-- A closed segment is a full circle in two halves. -/
theorem spans_multi_of_isClosed (h : s.isClosed = true) : s.spans direction .multi =
    [{ s.spanAbout direction (s.start + s.offset) with sweepAngle := direction.halfTurn },
      { s.spanAbout direction (s.start + s.offset) with
        startAngle := (s.start + s.offset).angleFrom s.start + direction.halfTurn
        sweepAngle := direction.halfTurn }] := by
  cases direction with
  | clockwise => exact if_pos h
  | counterClockwise => exact if_pos h

/-- An open segment in multi-quadrant mode has one span, about the centre that its offset gives. -/
theorem spans_multi_of_not_isClosed (h : ¬ s.isClosed = true) : s.spans direction .multi =
    [s.spanAbout direction (s.start + s.offset)] := if_neg h

/-- **Spans go in the direction of the command,** by a full turn at most. -/
theorem allows_of_mem_spans (h : span ∈ s.spans direction quadrant) :
    direction.Allows span.sweepAngle := by
  cases quadrant with
  | single =>
      rw [spans, spansSingle] at h
      split at h
      · cases h
      · obtain ⟨c, hc, rfl⟩ := List.mem_map.mp h
        obtain ⟨center, -, rfl⟩ := List.mem_map.mp (best_spec (Option.mem_toList.mp hc)).1
        exact (s.sweeps_spanAbout direction center).allows
  | multi =>
      by_cases hclosed : s.isClosed = true
      · rw [spans_multi_of_isClosed hclosed, List.mem_pair] at h
        rcases h with rfl | rfl
        · exact direction.allows_halfTurn
        · exact direction.allows_halfTurn
      · rw [spans_multi_of_not_isClosed hclosed, List.mem_singleton] at h
        rw [h]
        exact (s.sweeps_spanAbout direction _).allows

end Segment

/-! ### The points along a span -/

namespace Span

variable {s : Span ℝ}

/-- Points of the circle of a span at evenly spaced angles, from the start of its sweep to the end
of it. -/
noncomputable def evenly (s : Span ℝ) (count : ℕ) : List (Point ℝ) :=
  (List.range count).map fun k =>
    s.center + .polar s.radius (s.startAngle + k * s.sweepAngle / (count - 1))

/-- As many points as asked for. -/
@[simp] theorem length_evenly (s : Span ℝ) (count : ℕ) : (s.evenly count).length = count := by
  rw [evenly, List.length_map, List.length_range]

/-- They end at the end of the sweep. -/
theorem getLast?_evenly (s : Span ℝ) {count : ℕ} (h : 1 < count) : (s.evenly count).getLast? =
    some (s.center + .polar s.radius (s.startAngle + s.sweepAngle)) := by
  have hcount : ((count - 1 : ℕ) : ℝ) = count - 1 := by
    rw [Nat.cast_sub h.le, Nat.cast_one]
  have hne : (count : ℝ) - 1 ≠ 0 := sub_ne_zero.mpr (Nat.cast_ne_one.mpr h.ne')
  rw [evenly, List.getLast?_map, List.getLast?_range, if_neg (Nat.ne_zero_of_lt h), Option.map_some,
    hcount, mul_div_cancel_left₀ _ hne]

/-- A sweep counts as a full circle if it is close to nothing or to a full turn. -/
theorem isFullCircle_iff {sweep : ℝ} : isFullCircle sweep = true ↔
    |sweep| < 1e-10 ∨ |(|sweep| - 2 * π)| < 1e-10 := by
  unfold isFullCircle
  rw [Bool.or_eq_true, decide_eq_true_iff, decide_eq_true_iff]
  exact Iff.rfl

/-- Of the sweeps of at most a full turn, those that do not count as a full circle are away from
both ends. -/
theorem not_isFullCircle_iff {sweep : ℝ} (h : |sweep| ≤ 2 * π) : ¬ isFullCircle sweep = true ↔
    1e-10 ≤ |sweep| ∧ |sweep| ≤ 2 * π - 1e-10 := by
  rw [isFullCircle_iff, not_or, not_lt, not_lt, abs_of_nonpos (sub_nonpos.mpr h), neg_sub,
    le_sub_comm]

/-- **The points along a span** are evenly spaced along its sweep, or along a counter-clockwise full
turn. -/
theorem points_eq (s : Span ℝ) : s.points =
    if isFullCircle s.sweepAngle then { s with sweepAngle := 2 * π }.evenly 33
    else s.evenly 32 := by
  have hpoint {angle angle' : ℝ} (h : angle = angle') :
      s.center + .polar s.radius angle = s.center + .polar s.radius angle' := by
    rw [h]
  unfold points sample
  split
  · show ((List.range 32).map (fun k : ℕ => Point.polar s.radius
        (s.startAngle + 2 * π / ((32 : ℕ) : ℝ) * (k : ℝ))) ++
      [Point.polar s.radius (s.startAngle + 2 * π / ((32 : ℕ) : ℝ) * ((0 : ℕ) : ℝ))]).map
        (s.center + ·) = _
    rw [evenly, show List.range 33 = List.range 32 ++ [32] from List.range_succ, List.map_append,
      List.map_append, List.map_map]
    congr 1
    · refine List.map_congr_left fun k _ => hpoint ?_
      push_cast
      ring
    · -- The last point is the first one again, a full turn later.
      refine congrArg (fun p => [s.center + p]) ?_
      rw [← Point.polar_add_turns _ _ 1]
      congr 1
      push_cast
      ring
  · rw [List.map_map, evenly]
    refine List.map_congr_left fun k _ => hpoint ?_
    show s.startAngle + s.sweepAngle / ((31 : ℕ) : ℝ) * (k : ℝ) = _
    push_cast
    ring

/-- There are always at least two points along a span. -/
theorem one_lt_length_points (s : Span ℝ) : 1 < s.points.length := by
  rw [points_eq]
  split <;> simp

/-- The points along a span are evenly spaced along its sweep. -/
def FollowsSweep (s : Span ℝ) : Prop := s.points = s.evenly s.points.length

/-- Points along a full turn are points along a sweep only if that is the same full turn. -/
theorem evenly_full_iff (h : |s.sweepAngle| ≤ 2 * π) :
    { s with sweepAngle := 2 * π }.evenly 33 = s.evenly 33 ↔
      s.radius = 0 ∨ s.sweepAngle = 2 * π := by
  rw [evenly, evenly, List.map_inj_left]
  constructor
  · intro hpoints
    by_contra hne
    obtain ⟨hradius, hsweep⟩ := not_or.mp hne
    -- The second points differ by a part of the missing sweep, which is not a whole turn.
    obtain ⟨turns, hturns⟩ := Point.exists_turns_of_polar_eq hradius
      (Point.eq_of_add_eq_add (hpoints 1 (by simp)))
    have hmissing : (2 * π - s.sweepAngle) / 32 = turns * (2 * π) := by
      push_cast at hturns
      linarith
    obtain ⟨hlow, hhigh⟩ := abs_le.mp h
    have hzero := eq_zero_of_turns hmissing
      (abs_lt.mpr ⟨by linarith [pi_pos], by linarith [pi_pos]⟩)
    exact hsweep (by linarith)
  · rintro (hradius | hsweep) k -
    · simp only [hradius, Point.polar_zero]
    · rw [hsweep]

/-- The points along a span that is not a full circle follow its sweep. -/
theorem followsSweep_of_not_isFullCircle (h : ¬ isFullCircle s.sweepAngle = true) :
    s.FollowsSweep := by
  rw [FollowsSweep, points_eq, if_neg h, length_evenly]

/-- **Which spans are followed by their points:** those whose sweep does not count as a full circle
or is a counter-clockwise full turn, and those without radius. -/
theorem followsSweep_iff (h : |s.sweepAngle| ≤ 2 * π) : s.FollowsSweep ↔
    s.radius = 0 ∨ s.sweepAngle = 2 * π ∨
      1e-10 ≤ |s.sweepAngle| ∧ |s.sweepAngle| ≤ 2 * π - 1e-10 := by
  rw [← not_isFullCircle_iff h, FollowsSweep, points_eq]
  by_cases hfull : isFullCircle s.sweepAngle = true
  · rw [if_pos hfull, length_evenly, evenly_full_iff h]
    simp only [hfull, not_true, or_false]
  · rw [← points_eq, ← FollowsSweep]
    exact iff_of_true (followsSweep_of_not_isFullCircle hfull) (.inr (.inr hfull))

end Span

/-- **Spans and the points along them.** Every span of a segment sweeps in the direction of the
command, by a full turn at most. Its points follow the sweep, and then end at the end of it, unless
the sweep counts as a full circle: it is less than `1e-10`, or that close to a full turn without
being a counter-clockwise full turn, and the span has a radius. Else its points run
counter-clockwise around the whole circle. -/
theorem Segment.followsSweep_iff_of_mem_spans {s : Segment ℝ} {direction : Direction}
    {quadrant : Quadrant} {span : Span ℝ} (h : span ∈ s.spans direction quadrant) :
    direction.Allows span.sweepAngle ∧
      (span.FollowsSweep ↔ span.radius = 0 ∨ span.sweepAngle = 2 * π ∨
        1e-10 ≤ |span.sweepAngle| ∧ |span.sweepAngle| ≤ 2 * π - 1e-10) ∧
      (span.FollowsSweep → span.points.getLast? =
        some (span.center + .polar span.radius (span.startAngle + span.sweepAngle))) ∧
      (¬ span.FollowsSweep → span.points = { span with sweepAngle := 2 * π }.evenly 33) := by
  have hallows := allows_of_mem_spans h
  refine ⟨hallows, Span.followsSweep_iff hallows.abs_le, fun hfollows => ?_, fun hstrays => ?_⟩
  · rw [hfollows]
    exact span.getLast?_evenly span.one_lt_length_points
  · have hfull : Span.isFullCircle span.sweepAngle = true := by
      by_contra hfull
      exact hstrays (Span.followsSweep_of_not_isFullCircle hfull)
    rw [span.points_eq, if_pos hfull]

/-- The only span of a segment whose end is apart from its start. -/
theorem Segment.exists_mem_spans_multi {s : Segment ℝ} {direction : Direction} {sweep : ℝ}
    {center : Point ℝ} (hcenter : s.start + s.offset = center)
    (hapart : 1e-9 ≤ s.start.distance s.stop)
    (hsweep : Sweeps center direction s.start s.stop sweep) (hstart : center ≠ s.start)
    (hstop : center ≠ s.stop) :
    (⟨center, center.distance s.start, center.angleFrom s.start, sweep⟩ : Span ℝ) ∈
      s.spans direction .multi := by
  have hopen : ¬ s.isClosed = true := mt of_decide_eq_true (not_lt.mpr hapart)
  rw [spans_multi_of_not_isClosed hopen, hcenter, spanAbout_eq hsweep hstart hstop]
  exact List.mem_singleton_self _

/-- Three quarters of a clockwise turn about the origin. -/
theorem Segment.followsSweep_threeQuarters :
    ∃ span ∈ (⟨⟨1, 0⟩, ⟨0, 1⟩, ⟨-1, 0⟩⟩ : Segment ℝ).spans .clockwise .multi,
      span.sweepAngle = -(3 * π / 2) ∧ span.FollowsSweep := by
  have hstart : Point.distance (⟨0, 0⟩ : Point ℝ) ⟨1, 0⟩ = 1 := by
    rw [Point.distance_eq_sqrt_abs]
    norm_num
  have hstop : Point.distance (⟨0, 0⟩ : Point ℝ) ⟨0, 1⟩ = 1 := by
    rw [Point.distance_eq_sqrt_abs]
    norm_num
  have hapart : (1e-9 : ℝ) ≤ Point.distance ⟨1, 0⟩ ⟨0, 1⟩ := by
    rw [Point.distance_eq_sqrt_abs]
    exact le_sqrt_of_sq_le (by norm_num)
  have hsweep : Sweeps ⟨0, 0⟩ .clockwise ⟨1, 0⟩ ⟨0, 1⟩ (-(3 * π / 2)) := by
    refine ⟨⟨by linarith [pi_pos], by linarith [pi_pos]⟩, 0, ?_, ?_⟩
    · rw [hstart]
      exact Point.ext (by simp) (by simp)
    · rw [hstop, show 0 + -(3 * π / 2) = π / 2 - 2 * π by ring]
      exact Point.ext (by simp) (by simp)
  have hmem := exists_mem_spans_multi (s := ⟨⟨1, 0⟩, ⟨0, 1⟩, ⟨-1, 0⟩⟩)
    (Point.ext (add_neg_cancel 1) (add_zero 0)) hapart hsweep (by norm_num) (by norm_num)
  refine ⟨_, hmem, rfl, (followsSweep_iff_of_mem_spans hmem).2.1.mpr (.inr (.inr ?_))⟩
  show 1e-10 ≤ |-(3 * π / 2)| ∧ |-(3 * π / 2)| ≤ 2 * π - 1e-10
  rw [abs_neg, abs_of_pos (by linarith [pi_pos])]
  exact ⟨by linarith [two_le_pi], by linarith [two_le_pi]⟩

/-! ### Spans that are drawn as full circles -/

/-- From one point to another on the same ray, clockwise, is a full turn. -/
theorem sweeps_outward : Sweeps ⟨0, 0⟩ .clockwise ⟨1, 0⟩ ⟨2, 0⟩ (-(2 * π)) := by
  refine ⟨⟨le_rfl, neg_neg_of_pos two_pi_pos⟩, 0, ?_, ?_⟩
  · rw [Point.distance_horizontal]
    exact Point.ext (by simp) (by simp)
  · rw [Point.distance_horizontal, ← neg_one_mul, ← Int.cast_one, ← Int.cast_neg,
      Point.polar_add_turns]
    exact Point.ext (by simp) (by simp)

/-- Seen from twenty thousand away, a point that is `1e-6` high is less than `1e-10` up. -/
theorem angleFrom_distant : 0 < Point.angleFrom (⟨-20000, 0⟩ : Point ℝ) ⟨0, 1e-6⟩ ∧
    Point.angleFrom (⟨-20000, 0⟩ : Point ℝ) ⟨0, 1e-6⟩ < 1e-10 := by
  have hangle : Point.angleFrom (⟨-20000, 0⟩ : Point ℝ) ⟨0, 1e-6⟩ =
      arcsin (1e-6 / ‖(⟨20000, 1e-6⟩ : ℂ)‖) := by
    have hre : (0 : ℝ) ≤ (⟨20000, 1e-6⟩ : ℂ).re := by norm_num
    rw [show arcsin _ = _ from (Complex.arg_of_re_nonneg hre).symm]
    show Complex.arg ⟨0 - -20000, 1e-6 - 0⟩ = Complex.arg ⟨20000, 1e-6⟩
    norm_num
  have hnorm : 20000 ≤ ‖(⟨20000, 1e-6⟩ : ℂ)‖ := Complex.re_le_norm ⟨20000, 1e-6⟩
  have hpos : 0 < 1e-6 / ‖(⟨20000, 1e-6⟩ : ℂ)‖ := div_pos (by norm_num) (by linarith)
  have hsmall : 1e-6 / ‖(⟨20000, 1e-6⟩ : ℂ)‖ ≤ 5e-11 := by
    rw [div_le_iff₀ (by linarith)]
    linarith
  have hcube : (1e-10 : ℝ) - 1e-10 ^ 3 / 6 < sin 1e-10 := sin_gt_sub_cube (by norm_num)
  have hsin : (5e-11 : ℝ) < sin 1e-10 := lt_trans (by norm_num) hcube
  rw [hangle, arcsin_pos, arcsin_lt_iff_lt_sin' ⟨by linarith [pi_pos], by linarith [two_le_pi]⟩]
  exact ⟨hpos, hsmall.trans_lt hsin⟩

/-- The short segment about the distant centre sweeps less than a hair's breadth. -/
theorem sweeps_distant : Sweeps ⟨-20000, 0⟩ .counterClockwise ⟨0, 0⟩ ⟨0, 1e-6⟩
    (Point.angleFrom ⟨-20000, 0⟩ ⟨0, 1e-6⟩) := by
  obtain ⟨hpos, hsmall⟩ := angleFrom_distant
  refine ⟨⟨hpos, by linarith [two_le_pi]⟩, 0, ?_, ?_⟩
  · rw [Point.distance_horizontal]
    exact Point.ext (by simp) (by simp)
  · rw [zero_add]
    exact Point.eq_add_polar ⟨-20000, 0⟩ ⟨0, 1e-6⟩

/-- The points do not follow a clockwise full turn, nor a sweep of less than `1e-10` about a distant
centre. -/
theorem Segment.not_followsSweep_fullCircles :
    (∃ span ∈ (⟨⟨1, 0⟩, ⟨2, 0⟩, ⟨-1, 0⟩⟩ : Segment ℝ).spans .clockwise .multi,
      span.sweepAngle = -(2 * π) ∧ ¬ span.FollowsSweep) ∧
    ∃ span ∈ (⟨⟨0, 0⟩, ⟨0, 1e-6⟩, ⟨-20000, 0⟩⟩ : Segment ℝ).spans .counterClockwise .multi,
      0 < span.sweepAngle ∧ span.sweepAngle < 1e-10 ∧ ¬ span.FollowsSweep := by
  constructor
  · have hapart : (1e-9 : ℝ) ≤ Point.distance ⟨1, 0⟩ ⟨2, 0⟩ := by
      rw [Point.distance_horizontal]
      norm_num
    have hmem := exists_mem_spans_multi (s := ⟨⟨1, 0⟩, ⟨2, 0⟩, ⟨-1, 0⟩⟩)
      (Point.ext (add_neg_cancel 1) (add_zero 0)) hapart sweeps_outward (by norm_num)
      (by norm_num)
    refine ⟨_, hmem, rfl, ?_⟩
    rw [Span.followsSweep_iff sweeps_outward.allows.abs_le]
    rintro (hradius | hturn | ⟨-, hless⟩)
    · have hne : (⟨0, 0⟩ : Point ℝ) ≠ ⟨1, 0⟩ := by norm_num
      exact hne (Point.distance_eq_zero_iff.mp hradius)
    · exact (neg_lt_self two_pi_pos).ne hturn
    · rw [abs_neg, abs_of_pos two_pi_pos] at hless
      norm_num at hless
  · obtain ⟨hpos, hsmall⟩ := angleFrom_distant
    have hapart : (1e-9 : ℝ) ≤ Point.distance ⟨0, 0⟩ ⟨0, 1e-6⟩ := by
      rw [Point.distance_eq_sqrt_abs]
      exact le_sqrt_of_sq_le (by norm_num)
    have hmem := exists_mem_spans_multi (s := ⟨⟨0, 0⟩, ⟨0, 1e-6⟩, ⟨-20000, 0⟩⟩)
      (Point.ext (zero_add _) (zero_add _)) hapart sweeps_distant (by norm_num) (by norm_num)
    refine ⟨_, hmem, hpos, hsmall, ?_⟩
    rw [Span.followsSweep_iff sweeps_distant.allows.abs_le]
    rintro (hradius | hturn | ⟨hless, -⟩)
    · have hne : (⟨-20000, 0⟩ : Point ℝ) ≠ ⟨0, 0⟩ := by norm_num
      exact hne (Point.distance_eq_zero_iff.mp hradius)
    · linarith [two_le_pi, show _ = 2 * π from hturn]
    · rw [show |_| = _ from abs_of_pos hpos] at hless
      linarith

end Photoplot
