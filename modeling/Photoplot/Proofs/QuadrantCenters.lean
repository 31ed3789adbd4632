import Photoplot.Proofs.Sweeps

/-!
# The Centres of Single-Quadrant Arcs

In single-quadrant mode the offset of the centre comes without signs, so four centres are possible.
This module shows that nothing is lost: an arc of at most a quarter turn gets back its own centre.

Of the four centres all are equally far away from the start. One that is as far away from the end,
too, is the true centre or its reflection across the chord. About the reflection the sweep in the
same direction is what the true one lacks of a full turn, which is far more than a quarter. So no
candidate but the true one is both within the quarter turn and free of error, and the best candidate
is one that no other is better than.

Everything here is about the real numbers.

## Main results

* `Segment.best_spec`: the best of some candidates is one of them, and none is better.
* `Point.eq_or_add_eq`: the centres of the circles of one radius through two points.
* `Sweeps.turns_reflected`: the sweep about the reflected centre.
* `Segment.spans_single_of_quarter`: single-quadrant arcs get back their centre.
-/

namespace Photoplot

open Real

/-! ### The best candidate -/

namespace Segment

namespace Candidate

variable {b c d : Candidate ℝ}

/-- A candidate is better when it alone keeps within the quarter turn, or when neither or both do
and its error is less. -/
theorem better_iff : c.better d = true ↔
    c.within = true ∧ d.within = false ∨ c.within = d.within ∧ c.error < d.error := by
  unfold better
  rw [Scalar.isNumber_real, Scalar.isNumber_real]
  cases c.within <;> cases d.within <;> simp

/-- Of two candidates at most one is better. -/
theorem not_better_of_better (h : c.better d = true) : ¬ d.better c = true := by
  rw [better_iff] at h ⊢
  rintro (⟨hd, hc⟩ | ⟨heq, hless⟩)
  · rcases h with ⟨hc', -⟩ | ⟨heq, -⟩
    · exact Bool.false_ne_true (hc.symm.trans hc')
    · exact Bool.false_ne_true (hc.symm.trans (heq.trans hd))
  · rcases h with ⟨hc', hd'⟩ | ⟨-, hless'⟩
    · exact Bool.false_ne_true (hd'.symm.trans (heq.trans hc'))
    · exact hless.not_gt hless'

/-- No candidate is better than itself. -/
theorem not_better_self (c : Candidate ℝ) : ¬ c.better c = true :=
  fun h => not_better_of_better h h

/-- What is not better than one candidate is not better than any that is at least as good. -/
theorem not_better_trans (hb : ¬ b.better c = true) (hc : ¬ c.better d = true) :
    ¬ b.better d = true := by
  rw [better_iff] at hb hc ⊢
  grind

end Candidate

/-- A pass that keeps the better one ends with a candidate that no other one is better than, and
with the first of those. -/
theorem foldl_better_spec (rest : List (Candidate ℝ)) (first : Candidate ℝ) :
    let chosen := rest.foldl (fun chosen d => if d.better chosen then d else chosen) first
    chosen ∈ first :: rest ∧ ∀ d ∈ first :: rest, ¬ d.better chosen = true := by
  induction rest generalizing first with
  | nil =>
      refine ⟨List.mem_singleton_self first, fun d hd => ?_⟩
      rw [List.mem_singleton.mp hd]
      exact Candidate.not_better_self first
  | cons d rest ih =>
      rw [List.foldl_cons]
      -- The next chosen one is at least as good as both that compete for it.
      by_cases hd : d.better first = true
      · rw [if_pos hd]
        obtain ⟨hmem, hbest⟩ := ih d
        refine ⟨List.mem_cons_of_mem first hmem, List.forall_mem_cons.mpr ⟨?_, hbest⟩⟩
        exact Candidate.not_better_trans (Candidate.not_better_of_better hd)
          (hbest d List.mem_cons_self)
      · rw [if_neg hd]
        obtain ⟨hmem, hbest⟩ := ih first
        obtain ⟨hfirst, hrest⟩ := List.forall_mem_cons.mp hbest
        refine ⟨?_, List.forall_mem_cons.mpr ⟨hfirst, List.forall_mem_cons.mpr ⟨?_, hrest⟩⟩⟩
        · rcases List.mem_cons.mp hmem with heq | hmem
          · exact List.mem_cons.mpr (.inl heq)
          · exact List.mem_cons_of_mem first (List.mem_cons_of_mem d hmem)
        · exact Candidate.not_better_trans hd hfirst

/-- **The best candidate** is one of the candidates, and none is better. -/
theorem best_spec {candidates : List (Candidate ℝ)} {c : Candidate ℝ}
    (h : best candidates = some c) : c ∈ candidates ∧ ∀ d ∈ candidates, ¬ d.better c = true := by
  match candidates with
  | first :: rest =>
      obtain rfl := Option.some.inj h
      exact foldl_better_spec rest first

end Segment

/-! ### The circles through two points -/

namespace Point

/-- A centre as far from two different points is neither of them. -/
theorem ne_of_distance_eq {center p q : Point ℝ} (h : center.distance p = center.distance q)
    (hpq : p ≠ q) : center ≠ p ∧ center ≠ q := by
  rw [ne_eq, ne_eq, ← distance_eq_zero_iff, ← distance_eq_zero_iff, ← h, and_self]
  intro hzero
  exact hpq ((distance_eq_zero_iff.mp hzero).symm.trans
    (distance_eq_zero_iff.mp (h.symm.trans hzero)))

/-- **Two circles** of one radius meet in two points only if they are one circle, or the reflections
of each other across the chord between the points. -/
theorem eq_or_add_eq {center other p q : Point ℝ} (hcircle : center.distance p = center.distance q)
    (hp : other.distance p = center.distance p) (hq : other.distance q = center.distance q)
    (hpq : p ≠ q) : other = center ∨ other + center = p + q := by
  obtain ⟨cx, cy⟩ := center
  obtain ⟨ox, oy⟩ := other
  obtain ⟨px, py⟩ := p
  obtain ⟨qx, qy⟩ := q
  have hcircle' := congrArg (· ^ 2) hcircle
  have hp' := congrArg (· ^ 2) hp
  have hq' := congrArg (· ^ 2) hq
  simp only [sq_distance] at hcircle' hp' hq'
  -- The step between the centres and the step between their middle and that of the chord are both
  -- perpendicular to the chord, and to each other, so one of them is nothing.
  have hsteps : (ox - cx) * (px + qx - (ox + cx)) + (oy - cy) * (py + qy - (oy + cy)) = 0 := by
    linear_combination (-1 / 2) * hp' + (-1 / 2) * hq'
  have hcenters : (ox - cx) * (px - qx) + (oy - cy) * (py - qy) = 0 := by
    linear_combination (-1 / 2) * hp' + (1 / 2) * hq'
  have hmiddles : (px + qx - (ox + cx)) * (px - qx) + (py + qy - (oy + cy)) * (py - qy) = 0 := by
    linear_combination hcircle' + (1 / 2) * hp' - (1 / 2) * hq'
  have hchord : (px - qx) ^ 2 + (py - qy) ^ 2 ≠ 0 := by
    rw [← sq_distance ⟨qx, qy⟩ ⟨px, py⟩]
    exact pow_ne_zero 2 (mt distance_eq_zero_iff.mp hpq.symm)
  have hcross : (ox - cx) * (py + qy - (oy + cy)) - (oy - cy) * (px + qx - (ox + cx)) = 0 := by
    refine (mul_eq_zero.mp ?_).resolve_left hchord
    linear_combination ((px - qx) * (py + qy - (oy + cy)) - (py - qy) * (px + qx - (ox + cx))) *
      hcenters + ((ox - cx) * (py - qy) - (oy - cy) * (px - qx)) * hmiddles
  have hproduct : ((ox - cx) ^ 2 + (oy - cy) ^ 2) *
      ((px + qx - (ox + cx)) ^ 2 + (py + qy - (oy + cy)) ^ 2) = 0 := by
    linear_combination ((ox - cx) * (px + qx - (ox + cx)) + (oy - cy) * (py + qy - (oy + cy))) *
      hsteps + ((ox - cx) * (py + qy - (oy + cy)) - (oy - cy) * (px + qx - (ox + cx))) * hcross
  rw [← sq_distance ⟨cx, cy⟩ ⟨ox, oy⟩, ← sq_distance ⟨ox + cx, oy + cy⟩ ⟨px + qx, py + qy⟩,
    mul_eq_zero, pow_eq_zero_iff two_ne_zero, pow_eq_zero_iff two_ne_zero, distance_eq_zero_iff,
    distance_eq_zero_iff] at hproduct
  exact hproduct.imp Eq.symm id

end Point

section

variable {center other p q : Point ℝ} {direction : Direction} {a b : ℝ}

/-- Seen from the reflected centre the points have changed places. -/
theorem TurnedBy.reflected (h : TurnedBy center p q a) (hreflected : other + center = p + q)
    (hcircle : center.distance p = center.distance q)
    (hp : other.distance p = center.distance p) (hq : other.distance q = center.distance q) :
    TurnedBy other p q (-a) := by
  obtain ⟨start, hstart, hstop⟩ := h
  rw [← hcircle] at hstop hq
  have hx : other.x + center.x = p.x + q.x := congrArg Point.x hreflected
  have hy : other.y + center.y = p.y + q.y := congrArg Point.y hreflected
  have hpx : p.x = center.x + center.distance p * cos start := congrArg Point.x hstart
  have hpy : p.y = center.y + center.distance p * sin start := congrArg Point.y hstart
  have hqx : q.x = center.x + center.distance p * cos (start + a) := congrArg Point.x hstop
  have hqy : q.y = center.y + center.distance p * sin (start + a) := congrArg Point.y hstop
  refine ⟨start + a + π, ?_, ?_⟩
  · rw [hp]
    refine Point.ext ?_ ?_
    · rw [Point.x_add, Point.x_polar, cos_add_pi]
      linarith
    · rw [Point.y_add, Point.y_polar, sin_add_pi]
      linarith
  · rw [hq, show start + a + π + -a = start + π by ring]
    refine Point.ext ?_ ?_
    · rw [Point.x_add, Point.x_polar, cos_add_pi]
      linarith
    · rw [Point.y_add, Point.y_polar, sin_add_pi]
      linarith

/-- **The sweep about the reflected centre** is what the true one lacks of a full turn. -/
theorem Sweeps.full_le_reflected (ha : Sweeps center direction p q a)
    (hb : Sweeps other direction p q b) (hreflected : other + center = p + q)
    (hcircle : center.distance p = center.distance q)
    (hp : other.distance p = center.distance p) (hq : other.distance q = center.distance q)
    (hother : other ≠ p) (hother' : other ≠ q) : 2 * π ≤ |b| + |a| := by
  have hturned := ha.turnedBy.reflected hreflected hcircle hp hq
  obtain ⟨turns, hturns⟩ := hb.turnedBy.exists_turns hturned hother hother'
  rw [sub_neg_eq_add] at hturns
  by_contra hless
  exact hb.allows.add_ne_zero ha.allows
    (eq_zero_of_turns hturns ((abs_add_le b a).trans_lt (not_le.mp hless)))

end

/-! ### Single-quadrant arcs -/

namespace Segment

variable {s : Segment ℝ} {center : Point ℝ}

/-- The centres that an offset without signs allows are those with its magnitudes. -/
theorem mem_centers : center ∈ s.centers ↔
    |center.x - s.start.x| = |s.offset.x| ∧ |center.y - s.start.y| = |s.offset.y| := by
  have hside (c a : ℝ) (d : ℝ) :
      |c - a| = |d| ↔ c = a + |d| * (Nat.cast 1) ∨ c = a + |d| * -(Nat.cast 1) := by
    rw [Nat.cast_one, mul_one, mul_neg_one, ← abs_abs d, abs_eq_abs, abs_abs, sub_eq_iff_eq_add',
      sub_eq_iff_eq_add']
  obtain ⟨cx, cy⟩ := center
  rw [hside, hside, centers]
  simp only [List.map_cons, List.map_nil, List.mem_cons, List.not_mem_nil, or_false]
  show (⟨cx, cy⟩ : Point ℝ) = ⟨_, _⟩ ∨ (⟨cx, cy⟩ : Point ℝ) = ⟨_, _⟩ ∨
    (⟨cx, cy⟩ : Point ℝ) = ⟨_, _⟩ ∨ (⟨cx, cy⟩ : Point ℝ) = ⟨_, _⟩ ↔ _
  simp only [Point.mk.injEq]
  tauto

/-- All of them are equally far away from the start. -/
theorem distance_start_of_mem_centers {other : Point ℝ} (h : center ∈ s.centers)
    (hother : other ∈ s.centers) : other.distance s.start = center.distance s.start := by
  obtain ⟨hx, hy⟩ := mem_centers.mp h
  obtain ⟨hx', hy'⟩ := mem_centers.mp hother
  rw [Point.distance_eq_sqrt_abs, Point.distance_eq_sqrt_abs center, hx, hy, hx', hy']

section

variable {direction : Direction} {sweep : ℝ}

/-- A candidate keeps within the quarter turn up to a tolerance. -/
theorem within_candidate : (s.candidate direction center).within = true ↔
    |(s.spanAbout direction center).sweepAngle| ≤ π / 2 + 1e-9 :=
  decide_eq_true_iff

/-- The error of a candidate is how much its distances from both ends differ. -/
theorem error_candidate : (s.candidate direction center).error =
    |center.distance s.stop - center.distance s.start| := by
  rw [center.distance_comm, center.distance_comm s.start]
  rfl

/-- A candidate **fits** when it stays within the quarter turn and does not miss the end point. -/
structure Candidate.Fits (c : Candidate ℝ) : Prop where
  within : c.within = true
  error : c.error = 0

/-- Where a candidate fits, the best one does. -/
theorem fits_of_best {candidates : List (Candidate ℝ)} {b c : Candidate ℝ}
    (hnonneg : ∀ d ∈ candidates, 0 ≤ d.error) (hc : c ∈ candidates) (h : c.Fits)
    (hbest : best candidates = some b) : b.Fits := by
  obtain ⟨hb, hnone⟩ := best_spec hbest
  have hnot := hnone c hc
  rw [Candidate.better_iff, not_or, h.within, h.error] at hnot
  have hwithin : b.within = true := by
    by_contra hb
    exact hnot.1 ⟨rfl, Bool.eq_false_iff.mpr hb⟩
  exact ⟨hwithin, le_antisymm (not_lt.mp fun hless => hnot.2 ⟨hwithin.symm, hless⟩)
    (hnonneg b hb)⟩

/-- A candidate fits when it keeps within the quarter turn and is as far from both ends. -/
theorem fits_candidate_iff : (s.candidate direction center).Fits ↔
    |(s.spanAbout direction center).sweepAngle| ≤ π / 2 + 1e-9 ∧
      center.distance s.stop = center.distance s.start := by
  have herror : (s.candidate direction center).error = 0 ↔
      center.distance s.stop = center.distance s.start := by
    rw [error_candidate, abs_eq_zero, sub_eq_zero]
  exact ⟨fun h => ⟨within_candidate.mp h.within, herror.mp h.error⟩,
    fun h => ⟨within_candidate.mpr h.1, herror.mpr h.2⟩⟩

/-- **Only the true centre fits.** About its reflection the sweep is too large. -/
theorem eq_of_fits {other : Point ℝ} (hcircle : center.distance s.start = center.distance s.stop)
    (hne : s.start ≠ s.stop) (hsweep : Sweeps center direction s.start s.stop sweep)
    (hquarter : |sweep| ≤ π / 2) (hmem : center ∈ s.centers) (hother : other ∈ s.centers)
    (hfits : (s.candidate direction other).Fits) : other = center := by
  obtain ⟨hwithin, hequal⟩ := fits_candidate_iff.mp hfits
  have hstart := distance_start_of_mem_centers hmem hother
  have hstop : other.distance s.stop = center.distance s.stop :=
    hequal.trans (hstart.trans hcircle)
  refine (Point.eq_or_add_eq hcircle hstart hstop hne).resolve_right fun hreflected => ?_
  obtain ⟨haway, haway'⟩ := Point.ne_of_distance_eq hequal.symm hne
  have hfull := hsweep.full_le_reflected (s.sweeps_spanAbout direction other) hreflected hcircle
    hstart hstop haway haway'
  norm_num at hwithin
  linarith [two_le_pi]

/-- **Single-quadrant arcs** get back their centre. The start and the end of an arc are equally far
away from its centre and not the same point, and its sweep is at most a quarter turn. The offset
tells how far away the centre is on both axes, but not in which direction. -/
theorem spans_single_of_quarter (hcircle : center.distance s.start = center.distance s.stop)
    (hapart : 1e-9 ≤ s.start.distance s.stop)
    (hsweep : Sweeps center direction s.start s.stop sweep) (hquarter : |sweep| ≤ π / 2)
    (hx : |s.offset.x| = |center.x - s.start.x|) (hy : |s.offset.y| = |center.y - s.start.y|) :
    s.spans direction .single =
      [⟨center, center.distance s.start, center.angleFrom s.start, sweep⟩] := by
  have hopen : ¬ s.isClosed = true := mt of_decide_eq_true (not_lt.mpr hapart)
  have hmem : center ∈ s.centers := mem_centers.mpr ⟨hx.symm, hy.symm⟩
  have hne : s.start ≠ s.stop := by
    intro heq
    rw [Point.distance_eq_zero_iff.mpr heq] at hapart
    norm_num at hapart
  obtain ⟨haway, haway'⟩ := Point.ne_of_distance_eq hcircle hne
  have hspan := spanAbout_eq hsweep haway haway'
  have hfits : (s.candidate direction center).Fits := by
    rw [fits_candidate_iff, hspan]
    exact ⟨hquarter.trans (le_add_of_nonneg_right (by norm_num)), hcircle.symm⟩
  have hnonneg : ∀ d ∈ s.centers.map (s.candidate direction), 0 ≤ d.error := by
    intro d hd
    obtain ⟨other, -, rfl⟩ := List.mem_map.mp hd
    rw [error_candidate]
    exact abs_nonneg _
  obtain ⟨b, hbest⟩ : ∃ b, best (s.centers.map (s.candidate direction)) = some b := ⟨_, rfl⟩
  obtain ⟨other, hother, rfl⟩ := List.mem_map.mp (best_spec hbest).1
  obtain rfl := eq_of_fits hcircle hne hsweep hquarter hmem hother
    (fits_of_best hnonneg (List.mem_map_of_mem hmem) hfits hbest)
  rw [spans, spansSingle, if_neg hopen, hbest, ← hspan]
  rfl

end

/-- A clockwise quarter turn about `(1, 1)`. The centre is right above the start, but the offset
points down. -/
theorem spans_single_of_quarter_above :
    (⟨⟨1, 0⟩, ⟨0, 1⟩, ⟨0, -1⟩⟩ : Segment ℝ).spans .clockwise .single =
      [⟨⟨1, 1⟩, Point.distance ⟨1, 1⟩ ⟨1, 0⟩, Point.angleFrom ⟨1, 1⟩ ⟨1, 0⟩, -(π / 2)⟩] := by
  have hstart : Point.distance (⟨1, 1⟩ : Point ℝ) ⟨1, 0⟩ = 1 := by
    rw [Point.distance_eq_sqrt_abs]
    norm_num
  have hstop : Point.distance (⟨1, 1⟩ : Point ℝ) ⟨0, 1⟩ = 1 := by
    rw [Point.distance_eq_sqrt_abs]
    norm_num
  have hapart : (1e-9 : ℝ) ≤ Point.distance ⟨1, 0⟩ ⟨0, 1⟩ := by
    rw [Point.distance_eq_sqrt_abs]
    exact le_sqrt_of_sq_le (by norm_num)
  have hsweep : Sweeps ⟨1, 1⟩ .clockwise ⟨1, 0⟩ ⟨0, 1⟩ (-(π / 2)) := by
    refine ⟨⟨by linarith [pi_pos], by linarith [pi_pos]⟩, -(π / 2), ?_, ?_⟩
    · rw [hstart]
      exact Point.ext (by simp) (by simp)
    · rw [hstop, ← neg_add, add_halves]
      exact Point.ext (by simp) (by simp)
  have hquarter : |-(π / 2)| ≤ π / 2 := by
    rw [abs_neg, abs_of_pos (half_pos pi_pos)]
  exact spans_single_of_quarter (hstart.trans hstop.symm) hapart hsweep hquarter (by norm_num)
    (by norm_num)

end Segment

end Photoplot
