import Photoplot.Proofs.SampledArcs

/-!
# The Images of Arcs

A transform takes an arc to an arc: the centre like any point, the start by its direction, and the
sweep reversed by a single mirror axis. The points along the image are the images of the points
along the arc, one by one and in the same order. Only where the arc counts as a full circle and is
mirrored along one axis do they come in the opposite order, because a full circle always runs
counter-clockwise.

Everything here is about the real numbers, for rotations by any angle and scales of either sign.

## Main definitions

* `Mirroring.reverses`: a single mirror axis reverses the direction of travel.
* `Span.backwards`: the span from the end to the start.

## Main results

* `Transform.applyPoint_polar`: directions are transformed like the points that lie in them.
* `Transform.map_evenly`: the images of evenly spaced points are evenly spaced.
* `Transform.points_applySpan`: the points along the image of a span, in order.
* `Transform.applyShape_arc`: the points along the image of an arc.
-/

namespace Photoplot

open Real

/-! ### Directions -/

/-- Scaling acts on the radius of a point in polar coordinates. -/
theorem Point.scale_polar (radius angle factor : ℝ) :
    (polar radius angle).scale factor = polar (radius * factor) angle :=
  Point.ext (mul_right_comm _ _ _) (mul_right_comm _ _ _)

/-- Rotating acts on the angle of a point in polar coordinates. -/
theorem Point.rotate_polar (radius angle degrees : ℝ) :
    (polar radius angle).rotate degrees = polar radius (angle + Scalar.radians degrees) := by
  rw [rotate_eq]
  refine Point.ext ?_ ?_
  · simp only [x_polar, y_polar, cos_add]
    ring
  · simp only [x_polar, y_polar, sin_add]
    ring

namespace Mirroring

/-- Whether a single axis is mirrored, which reverses the direction of travel. -/
def reverses (m : Mirroring) : Bool := m.mirrorsX != m.mirrorsY

/-- The direction of the mirror image of a direction. -/
noncomputable def reflectAngle : Mirroring → ℝ → ℝ
  | none, angle => angle
  | x, angle => π - angle
  | y, angle => -angle
  | xy, angle => angle + π

/-- Mirroring acts on the angle of a point in polar coordinates. -/
theorem reflect_polar (m : Mirroring) (radius angle : ℝ) :
    m.reflect (.polar radius angle) = .polar radius (m.reflectAngle angle) := by
  cases m with
  | none => rfl
  | x | y | xy =>
      refine Point.ext ?_ ?_
      · simp [reflect, mirrorsX, reflectAngle]
      · simp [reflect, mirrorsY, reflectAngle]

/-- Going on in a direction is going on in the mirrored one. -/
theorem reflectAngle_add (m : Mirroring) (angle step : ℝ) : m.reflectAngle (angle + step) =
    m.reflectAngle angle + if m.reverses then -step else step := by
  cases m with
  | none => rfl
  | x => exact (sub_add_eq_sub_sub _ _ _).trans (sub_eq_add_neg _ _)
  | y => exact neg_add _ _
  | xy => exact add_right_comm _ _ _

end Mirroring

namespace Transform

variable (t : Transform ℝ)

/-- The angle of a transformed point is mirrored first and then turned. -/
theorem applyAngle_eq (angle : ℝ) :
    t.applyAngle angle = t.mirroring.reflectAngle angle + Scalar.radians t.rotation := by
  unfold applyAngle
  cases t.mirroring <;> rfl

/-- A transform turns the direction of an arc around exactly when it reverses. -/
theorem sweepAngle_applySpan (s : Span ℝ) : (t.applySpan s).sweepAngle =
    if t.mirroring.reverses then -s.sweepAngle else s.sweepAngle := rfl

/-- **Directions are transformed like points.** -/
theorem applyPoint_polar (radius angle : ℝ) :
    t.applyPoint (.polar radius angle) = .polar (radius * t.scale) (t.applyAngle angle) := by
  rw [applyPoint_eq, Mirroring.reflect_polar, Point.scale_polar, Point.rotate_polar, applyAngle_eq]

/-- A step along an arc is a step in the same or in the other direction along its image. -/
theorem applyAngle_add (angle step : ℝ) : t.applyAngle (angle + step) =
    t.applyAngle angle + if t.mirroring.reverses then -step else step := by
  rw [applyAngle_eq, applyAngle_eq, Mirroring.reflectAngle_add, add_right_comm]

/-- The image of an arc is a full circle if the arc is. -/
theorem isFullCircle_applySpan (s : Span ℝ) :
    Span.isFullCircle (t.applySpan s).sweepAngle = Span.isFullCircle s.sweepAngle := by
  rw [sweepAngle_applySpan, Bool.eq_iff_iff, Span.isFullCircle_iff, Span.isFullCircle_iff]
  split
  · rw [abs_neg]
  · rfl

/-- **Evenly spaced points** have evenly spaced images. -/
theorem map_evenly (s : Span ℝ) (count : ℕ) :
    (s.evenly count).map t.applyPoint = (t.applySpan s).evenly count := by
  rw [Span.evenly, Span.evenly, List.map_map]
  refine List.map_congr_left fun k _ => ?_
  show t.applyPoint (s.center + _) = t.applyPoint s.center + _
  rw [applyPoint_add, applyPoint_polar, applyAngle_add, sweepAngle_applySpan]
  congr 2
  show _ = t.applyAngle s.startAngle + _
  split
  · rw [mul_neg, neg_div]
  · rfl

end Transform

/-! ### Order -/

/-- The span from the end to the start. -/
noncomputable def Span.backwards (s : Span ℝ) : Span ℝ :=
  { s with startAngle := s.startAngle + s.sweepAngle, sweepAngle := -s.sweepAngle }

/-- The points of an arc in the other direction are its points in reverse order. -/
theorem Span.evenly_backwards (s : Span ℝ) {count : ℕ} (h : 1 < count) :
    s.backwards.evenly count = (s.evenly count).reverse := by
  have hne : (count : ℝ) - 1 ≠ 0 := sub_ne_zero.mpr (Nat.cast_ne_one.mpr h.ne')
  refine List.ext_getElem (by simp) fun k hk hk' => ?_
  rw [length_evenly] at hk
  have hback : ((count - 1 - k : ℕ) : ℝ) = count - 1 - k := by
    rw [Nat.cast_sub (Nat.le_sub_one_of_lt hk), Nat.cast_sub h.le, Nat.cast_one]
  rw [List.getElem_reverse]
  simp only [evenly, List.getElem_map, List.getElem_range, List.length_map, List.length_range]
  show s.center + .polar s.radius (s.startAngle + s.sweepAngle + k * -s.sweepAngle / (count - 1)) =
    s.center + .polar s.radius (s.startAngle + (count - 1 - k : ℕ) * s.sweepAngle / (count - 1))
  rw [hback]
  congr 2
  field_simp
  ring

/-- A full turn has the same points in either direction. -/
theorem Span.evenly_full_neg (s : Span ℝ) {count : ℕ} (h : 1 < count) :
    { s with sweepAngle := -(2 * π) }.evenly count =
      ({ s with sweepAngle := 2 * π }.evenly count).reverse := by
  rw [← evenly_backwards _ h, evenly, evenly]
  refine List.map_congr_left fun k _ => ?_
  show s.center + .polar s.radius (s.startAngle + k * -(2 * π) / (count - 1)) =
    s.center + .polar s.radius (s.startAngle + 2 * π + k * -(2 * π) / (count - 1))
  rw [← Point.polar_add_turns _ (s.startAngle + k * -(2 * π) / (count - 1)) 1, Int.cast_one,
    one_mul, add_right_comm]

namespace Transform

variable (t : Transform ℝ)

/-- **The points along the image of a span** are the images of the points along the span, in
opposite order for a full circle that is mirrored along one axis. -/
theorem points_applySpan (s : Span ℝ) : (t.applySpan s).points =
    if Span.isFullCircle s.sweepAngle && t.mirroring.reverses then
      (s.points.map t.applyPoint).reverse
    else s.points.map t.applyPoint := by
  rw [Span.points_eq, Span.points_eq, isFullCircle_applySpan]
  cases Span.isFullCircle s.sweepAngle with
  | false => exact (t.map_evenly s 32).symm
  | true =>
      have hturn : t.applySpan { s with sweepAngle := 2 * π } = { t.applySpan s with
          sweepAngle := if t.mirroring.reverses then -(2 * π) else 2 * π } := rfl
      rw [if_pos rfl, if_pos rfl, map_evenly, hturn, Bool.true_and]
      split
      · rw [Span.evenly_full_neg _ (by norm_num), List.reverse_reverse]
      · rfl

/-- **The image of an arc** is an arc, whose points are the images of the points along the arc. They
come in the same order, unless the arc counts as a full circle. -/
theorem applyShape_arc (span : Span ℝ) (width : ℝ) (polarity : Polarity) :
    ∃ image, t.applyShape ⟨.arc span width, polarity⟩ = ⟨.arc image (width * t.scale), polarity⟩ ∧
      {p | p ∈ image.points} = t.applyPoint '' {p | p ∈ span.points} ∧
      (Span.isFullCircle span.sweepAngle = false →
        image.points = span.points.map t.applyPoint) := by
  refine ⟨t.applySpan span, rfl, ?_, fun hopen => ?_⟩
  · rw [points_applySpan]
    ext p
    split <;> simp
  · rw [points_applySpan, hopen, Bool.false_and, if_neg Bool.false_ne_true]

end Transform

end Photoplot
