import Mathlib.Algebra.Order.Round
import Photoplot.Proofs.Sweeps
import Photoplot.Proofs.ThermalSectors

/-!
# The Rings of Moirés

A moiré is drawn from its outermost ring inwards. A ring is written as a circle that a pen draws, by
the radius in the middle of the ring and the width of the pen, or as a disc when it leaves no hole.
This module says which radii the rings cover, and that this is how a moiré should look: the rings
are nested, they do not overlap, and only the innermost one can be a disc.

The radii of one ring are those from its hole to its rim, so all that matters is that the rim of the
next ring is not above the hole. The pitch of the rings is the thickness and the gap together, and
it is taken off twice from a diameter, so the rim of the next ring is a gap below the hole. Where
there is no hole the next rim is not above nothing, and such a ring is not drawn.

Everything here is about the real numbers.

## Main definitions

* `Geometry.penned`: the region that a round pen draws.
* `annulus`: the points whose distance from a centre is between two radii.
* `inside`: the inner points of a region.
* `ringDiameter`: the outer diameter of a ring.

## Main results

* `Geometry.penned_fullTurn`: a full turn of a pen is an annulus.
* `penned_ringShape`: what a ring covers.
* `rings_eq`: which rings are drawn, by induction on how many may still be drawn.
* `shapes_moire_rings`: the rings of the primitive.
-/

namespace Photoplot

open Real

/-! ### Regions -/

/-- The region that a **round pen** draws: a disc where it is put down, and all points that it
passes over on its way along a line or a span. Rectangles and polygons are not drawn with a pen. -/
def Geometry.penned : Geometry ℝ → Set (Point ℝ)
  | .circle center diameter => {p | center.distance p ≤ diameter / 2}
  | .line start stop width => {p | ∃ part ∈ Set.Icc (0 : ℝ) 1,
      (start + (stop - start).scale part).distance p ≤ width / 2}
  | .arc span width => {p | ∃ part ∈ Set.Icc (0 : ℝ) 1,
      (span.center + .polar span.radius (span.startAngle + span.sweepAngle * part)).distance p ≤
        width / 2}
  | .rectangle .. | .polygon _ => ∅

/-- The points whose distance from a centre is between two radii. -/
def annulus (center : Point ℝ) (inner outer : ℝ) : Set (Point ℝ) :=
  {p | inner ≤ center.distance p ∧ center.distance p ≤ outer}

/-- The **inner points** of a region: there is some room around them. -/
def inside (region : Set (Point ℝ)) : Set (Point ℝ) :=
  {p | ∃ room > 0, ∀ q, p.distance q < room → q ∈ region}

namespace Point

/-- Points in one direction from a centre are as far apart as their distances from it. -/
theorem distance_polar_polar (center : Point ℝ) (a b θ : ℝ) :
    (center + .polar a θ).distance (center + .polar b θ) = |b - a| := by
  have hsquare : ((center + polar b θ).x - (center + polar a θ).x) ^ 2 +
      ((center + polar b θ).y - (center + polar a θ).y) ^ 2 = (b - a) ^ 2 := by
    simp only [x_add, y_add, x_polar, y_polar]
    calc _ = (b - a) ^ 2 * (cos θ ^ 2 + sin θ ^ 2) := by ring
      _ = (b - a) ^ 2 := by rw [cos_sq_add_sin_sq, mul_one]
  show √(_ ^ 2 + _ ^ 2) = _
  rw [hsquare, sqrt_sq_eq_abs]

/-- The distances of two points from a third differ by at most their own distance. -/
theorem abs_distance_sub_le (center p q : Point ℝ) :
    |center.distance q - center.distance p| ≤ p.distance q := by
  simp only [distance_eq_norm]
  refine (abs_norm_sub_norm_le _ _).trans_eq (congrArg norm (Complex.ext ?_ ?_))
  · simp
  · simp

/-- A point by its distance from a centre and a direction that is not negative. -/
theorem exists_eq_add_polar (center p : Point ℝ) :
    ∃ part ∈ Set.Icc (0 : ℝ) 1, p = center + .polar (center.distance p) (2 * π * part) := by
  obtain ⟨hlow, hhigh⟩ : -π < center.angleFrom p ∧ center.angleFrom p ≤ π := Complex.arg_mem_Ioc _
  have hpart (turns : ℤ) : 2 * π * ((center.angleFrom p + turns * (2 * π)) / (2 * π)) =
      center.angleFrom p + turns * (2 * π) := mul_div_cancel₀ _ two_pi_pos.ne'
  have hturned (turns : ℤ) (hleast : 0 ≤ center.angleFrom p + turns * (2 * π))
      (hgreatest : center.angleFrom p + turns * (2 * π) ≤ 2 * π) :
      ∃ part ∈ Set.Icc (0 : ℝ) 1, p = center + .polar (center.distance p) (2 * π * part) := by
    refine ⟨_, ⟨div_nonneg hleast two_pi_pos.le, (div_le_one two_pi_pos).mpr hgreatest⟩, ?_⟩
    rw [hpart, polar_add_turns]
    exact center.eq_add_polar p
  by_cases hsign : 0 ≤ center.angleFrom p
  · exact hturned 0 (by simpa using hsign) (by push_cast; linarith)
  · exact hturned 1 (by push_cast; linarith) (by push_cast; linarith)

end Point

/-- **A full turn** of a pen around a centre draws an annulus. -/
theorem Geometry.penned_fullTurn {center : Point ℝ} {radius width : ℝ} (hradius : 0 ≤ radius) :
    (Geometry.arc ⟨center, radius, 0, 2 * π⟩ width).penned =
      annulus center (radius - width / 2) (radius + width / 2) := by
  ext p
  simp only [penned, annulus, Set.mem_ofPred_eq, zero_add]
  constructor
  · rintro ⟨part, -, hnear⟩
    have hdistance := (Point.abs_distance_sub_le center _ p).trans hnear
    rw [distance_polar hradius] at hdistance
    obtain ⟨hinner, houter⟩ := abs_le.mp hdistance
    exact ⟨by linarith, by linarith⟩
  · rintro ⟨hinner, houter⟩
    obtain ⟨part, hpart, hpolar⟩ := center.exists_eq_add_polar p
    refine ⟨part, hpart, ?_⟩
    have hdistance := Point.distance_polar_polar center radius (center.distance p) (2 * π * part)
    rw [← hpolar] at hdistance
    rw [hdistance, abs_le]
    exact ⟨by linarith, by linarith⟩

/-- Two annuli around a centre, one of them within the hole of the other, have no inner point in
common: from such a point there is no room away from the centre. -/
theorem inside_annulus_inter_eq_empty {center : Point ℝ} {inner outer inner' outer' : ℝ}
    (h : outer' ≤ inner) :
    inside (annulus center inner outer) ∩ inside (annulus center inner' outer') = ∅ := by
  refine Set.eq_empty_iff_forall_notMem.mpr ?_
  rintro p ⟨⟨room, hroom, hfirst⟩, room', hroom', hsecond⟩
  have hinner : inner ≤ center.distance p :=
    (hfirst p ((Point.distance_eq_zero_iff.mpr rfl).trans_lt hroom)).1
  -- a point a little farther away in the same direction
  have hnonneg : 0 ≤ center.distance p := sqrt_nonneg _
  have hfarther : p.distance (center + .polar (center.distance p + room' / 2)
      (center.angleFrom p)) = room' / 2 := by
    have hpolar := Point.distance_polar_polar center (center.distance p)
      (center.distance p + room' / 2) (center.angleFrom p)
    rw [← center.eq_add_polar p] at hpolar
    rw [hpolar, add_sub_cancel_left, abs_of_pos (half_pos hroom')]
  have houter := (hsecond _ (hfarther.trans_lt (half_lt_self hroom'))).2
  rw [distance_polar (by linarith)] at houter
  linarith

/-! ### One ring -/

/-- A ring is a full circle of strokes halfway between its diameters, or a disc if there is no room
inside. -/
theorem ringShape_eq (center : Point ℝ) (outer thickness : ℝ) :
    ringShape center outer thickness =
      if max (outer - 2 * thickness) 0 = 0 then ⟨.circle center outer, .dark⟩
      else
        ⟨.arc ⟨center, (outer + max (outer - 2 * thickness) 0) / 4, 0, 2 * π⟩
          ((outer - max (outer - 2 * thickness) 0) / 2), .dark⟩ := by
  simp only [ringShape, Scalar.zero_real, Scalar.greater_eq_max, Scalar.beq_iff_eq_real]
  rfl

/-- **A ring** covers the radii from its hole to its rim, whichever way it is written. -/
theorem penned_ringShape (center : Point ℝ) {outer : ℝ} (houter : 0 ≤ outer) (thickness : ℝ) :
    (ringShape center outer thickness).geometry.penned =
      annulus center (max (outer - 2 * thickness) 0 / 2) (outer / 2) := by
  rw [ringShape_eq]
  split
  · rename_i hdisc
    rw [hdisc, zero_div]
    ext p
    exact (and_iff_right (sqrt_nonneg _)).symm
  · have hinner : 0 ≤ max (outer - 2 * thickness) 0 := le_max_right _ _
    rw [Geometry.penned_fullTurn (by positivity)]
    congr 1
    · ring
    · ring

/-- Only a ring without a hole is a disc. -/
theorem le_of_ringShape_eq_circle {center center' : Point ℝ} {outer thickness diameter : ℝ}
    (h : (ringShape center outer thickness).geometry = .circle center' diameter) :
    outer ≤ 2 * thickness := by
  rw [ringShape_eq] at h
  split at h
  · rename_i hdisc
    have hhole := (le_max_left _ _).trans_eq hdisc
    linarith
  · cases h

/-- Rings are dark. -/
theorem polarity_ringShape (center : Point ℝ) (outer thickness : ℝ) :
    (ringShape center outer thickness).polarity = .dark := by
  rw [ringShape_eq]
  split
  · rfl
  · rfl

/-! ### All rings -/

/-- A negative integer counts as zero. -/
theorem toNat_max_zero (z : ℤ) : ⌊max (z : ℝ) 0⌋₊ = z.toNat := by
  have hcast : max (z : ℝ) 0 = z.toNat := by
    rw [← Int.cast_zero, ← Int.cast_max, ← Int.toNat_eq_max, Int.cast_natCast]
  rw [hcast, Nat.floor_natCast]

/-- The number of rings is rounded. Halves of negative numbers are rounded to other integers than
`round` does, but to none above zero. -/
theorem ringCount_eq (maxRings : ℝ) : ringCount maxRings = (round maxRings).toNat := by
  rw [ringCount, Scalar.zero_real, Scalar.greater_eq_max]
  show ⌊max (if 0 ≤ maxRings then ((⌊maxRings + 1 / 2⌋ : ℤ) : ℝ) else
    (⌈maxRings - 1 / 2⌉ : ℤ)) 0⌋₊ = _
  rw [round_eq]
  split
  · exact toNat_max_zero _
  · rename_i hnegative
    have hceil : ⌈maxRings - 1 / 2⌉ ≤ 0 := Int.ceil_le.mpr (by push_cast; linarith)
    have hfloor : ⌊maxRings + 1 / 2⌋ ≤ 0 := by
      refine Int.lt_add_one_iff.mp (Int.floor_lt.mpr ?_)
      push_cast
      linarith
    rw [toNat_max_zero, Int.toNat_of_nonpos hceil, Int.toNat_of_nonpos hfloor]

/-- The outer diameter of a ring, by the number of rings around it. -/
noncomputable def ringDiameter (outerDiameter thickness gap : ℝ) (i : ℕ) : ℝ :=
  outerDiameter - 2 * i * (thickness + gap)

section

variable (outerDiameter : ℝ) {thickness gap : ℝ}

/-- A later ring is smaller, at least by the pitch on both sides. -/
theorem ringDiameter_le_of_lt (hpitch : 0 ≤ thickness + gap) {i j : ℕ} (h : i < j) :
    ringDiameter outerDiameter thickness gap j ≤
      ringDiameter outerDiameter thickness gap i - 2 * (thickness + gap) := by
  have hsteps : (i : ℝ) + 1 ≤ j := by exact_mod_cast h
  have hpitches := mul_le_mul_of_nonneg_right hsteps hpitch
  rw [ringDiameter, ringDiameter]
  linarith

/-- **The rings** from a given one inwards are those of a positive diameter. Where a ring without
size ends them, the later ones would be smaller still. -/
theorem rings_eq (center : Point ℝ) (hpitch : 0 < thickness + gap) (ring count : ℕ) :
    rings center outerDiameter thickness gap ring count =
      ((List.range' ring count).filter
        fun i => 0 < ringDiameter outerDiameter thickness gap i).map
          fun i => ringShape center (ringDiameter outerDiameter thickness gap i) thickness := by
  induction count generalizing ring with
  | zero => rfl
  | succ count ih =>
      rw [rings, List.range'_succ, List.filter_cons, Scalar.zero_real, if_neg hpitch.not_ge, ih]
      show (if ringDiameter outerDiameter thickness gap ring ≤ 0 then _ else
        ringShape center (ringDiameter outerDiameter thickness gap ring) thickness :: _) = _
      by_cases hpositive : 0 < ringDiameter outerDiameter thickness gap ring
      · rw [if_neg hpositive.not_ge, if_pos (decide_eq_true hpositive)]
        rfl
      · have hrest : (List.range' (ring + 1) count).filter
            (fun i => 0 < ringDiameter outerDiameter thickness gap i) = [] := by
          refine List.filter_eq_nil_iff.mpr fun i hi => ?_
          have hless := ringDiameter_le_of_lt outerDiameter hpitch.le
            (List.mem_range'_1.mp hi).1
          simp only [decide_eq_true_eq]
          linarith
        rw [if_pos (not_lt.mp hpositive), if_neg (by simpa using hpositive), hrest]
        rfl

/-- The rim of a later ring is within the hole of an earlier one, if it is drawn at all. -/
theorem ringDiameter_le_hole (hthickness : 0 < thickness) (hgap : 0 ≤ gap) {i j : ℕ} (h : i < j) :
    ringDiameter outerDiameter thickness gap j ≤
      max (ringDiameter outerDiameter thickness gap i - 2 * thickness) 0 := by
  have hless := ringDiameter_le_of_lt outerDiameter
    (add_nonneg hthickness.le hgap) h
  exact le_max_of_le_left (by linarith)

end

/-! ### The primitive -/

section

variable {name : String} {b : Bindings ℝ}
  {x y outerDiameter ringThickness gap maxRings crosshairThickness crosshairLength rotation :
    Expression ℝ}
  {center : Point ℝ} {outer thickness width count barThickness barLength degrees : ℝ}

variable (name) in
/-- A moiré is its rings and its crosshair, when all operands have values. -/
theorem shapes_moire (hrotation : rotation.eval b = .ok degrees) (hx : x.eval b = .ok center.x)
    (hy : y.eval b = .ok center.y) (houter : outerDiameter.eval b = .ok outer)
    (hthickness : ringThickness.eval b = .ok thickness) (hgap : gap.eval b = .ok width)
    (hcount : maxRings.eval b = .ok count)
    (hbarThickness : crosshairThickness.eval b = .ok barThickness)
    (hbarLength : crosshairLength.eval b = .ok barLength) :
    (Primitive.moire x y outerDiameter ringThickness gap maxRings crosshairThickness
        crosshairLength rotation).shapes name b =
      ⟨.ok (rings (center.rotate degrees) outer thickness width 0 (ringCount count) ++
        crosshair center barThickness barLength degrees), b, []⟩ := by
  rw [Primitive.shapes, value_bind hrotation, pointValue_bind hx hy, value_bind houter,
    value_bind hthickness, value_bind hgap, value_bind hcount, value_bind hbarThickness,
    value_bind hbarLength]
  rfl

variable (name) in
/-- **The rings of a moiré.** Let rings have some thickness, and let the gap not be negative. Then
those are drawn, in order, whose number is below the given one, rounded, and whose diameter is
positive. Each of them is dark and covers the radii from its hole to its rim. A later ring lies
within the hole of an earlier one, so that they have no inner points in common, and only the last
one may be a disc. -/
theorem shapes_moire_rings (hrotation : rotation.eval b = .ok degrees)
    (hx : x.eval b = .ok center.x) (hy : y.eval b = .ok center.y)
    (houter : outerDiameter.eval b = .ok outer)
    (hthickness : ringThickness.eval b = .ok thickness) (hgap : gap.eval b = .ok width)
    (hcount : maxRings.eval b = .ok count)
    (hbarThickness : crosshairThickness.eval b = .ok barThickness)
    (hbarLength : crosshairLength.eval b = .ok barLength)
    (hthick : 0 < thickness) (hwide : 0 ≤ width) :
    let drawn := (List.range (round count).toNat).filter
      fun i => 0 < ringDiameter outer thickness width i
    let hole (i : ℕ) := max (ringDiameter outer thickness width i - 2 * thickness) 0
    let ring (i : ℕ) := ringShape (center.rotate degrees)
      (ringDiameter outer thickness width i) thickness
    (Primitive.moire x y outerDiameter ringThickness gap maxRings crosshairThickness
        crosshairLength rotation).shapes name b =
      ⟨.ok (drawn.map ring ++ crosshair center barThickness barLength degrees), b, []⟩ ∧
    (∀ i ∈ drawn, (ring i).polarity = .dark ∧ (ring i).geometry.penned =
      annulus (center.rotate degrees) (hole i / 2) (ringDiameter outer thickness width i / 2)) ∧
    (drawn.Pairwise fun i j => ringDiameter outer thickness width j ≤ hole i ∧
      inside (ring i).geometry.penned ∩ inside (ring j).geometry.penned = ∅) ∧
    ∀ i ∈ drawn, ∀ c diameter, (ring i).geometry = .circle c diameter → ∀ j ∈ drawn, j ≤ i := by
  intro drawn hole ring
  have hpositive : ∀ i ∈ drawn, 0 < ringDiameter outer thickness width i :=
    fun i hi => of_decide_eq_true (List.mem_filter.mp hi).2
  have hcovers : ∀ i ∈ drawn, (ring i).geometry.penned =
      annulus (center.rotate degrees) (hole i / 2) (ringDiameter outer thickness width i / 2) :=
    fun i hi => penned_ringShape _ (hpositive i hi).le _
  refine ⟨?_, fun i hi => ⟨polarity_ringShape _ _ _, hcovers i hi⟩, ?_, ?_⟩
  · rw [shapes_moire name hrotation hx hy houter hthickness hgap hcount hbarThickness hbarLength,
      rings_eq outer _ (add_pos_of_pos_of_nonneg hthick hwide), ringCount_eq,
      ← List.range_eq_range']
  · refine (List.pairwise_lt_range.filter _).imp_of_mem fun {i j} hi hj hless => ?_
    have hnested : ringDiameter outer thickness width j ≤ hole i :=
      ringDiameter_le_hole outer hthick hwide hless
    refine ⟨hnested, ?_⟩
    rw [hcovers i hi, hcovers j hj]
    exact inside_annulus_inter_eq_empty (by linarith)
  · intro i hi c diameter hdisc j hj
    by_contra hlater
    have hsmall := le_of_ringShape_eq_circle hdisc
    have hless := ringDiameter_le_of_lt outer (add_nonneg hthick.le hwide)
      (not_le.mp hlater)
    have hdrawn := hpositive j hj
    linarith

end

/-- A moiré around the origin, without a crosshair. -/
noncomputable def originMoire (outer thickness gap count : ℝ) : Primitive ℝ :=
  .moire (.constant 0) (.constant 0) (.constant outer) (.constant thickness) (.constant gap)
    (.constant count) (.constant 0) (.constant 0) (.constant 0)

/-- Of five rings three are drawn, and the last of them covers a disc. -/
theorem shapes_moire_rings_threeOfFive :
    ((originMoire 9 1 1 5).shapes "M" (.ofParameters [])).result =
        .ok ([9, 5, 1].map (ringShape (Point.rotate ⟨0, 0⟩ 0) · 1) ++ crosshair ⟨0, 0⟩ 0 0 0) ∧
      (ringShape (Point.rotate ⟨0, 0⟩ 0) 1 1).geometry.penned =
        annulus (Point.rotate ⟨0, 0⟩ 0) 0 (1 / 2) := by
  have hvalue (v : ℝ) : (Expression.constant v).eval (.ofParameters []) = .ok v := rfl
  have hcenter : (Expression.constant (0 : ℝ)).eval (.ofParameters []) =
      .ok (⟨0, 0⟩ : Point ℝ).x := rfl
  have hdrawn : (List.range (round (5 : ℝ)).toNat).filter
      (fun i => 0 < ringDiameter 9 1 1 i) = [0, 1, 2] := by
    have hrange : List.range (round (5 : ℝ)).toNat = [0, 1, 2, 3, 4] := by
      rw [round_ofNat]
      rfl
    rw [hrange]
    norm_num [ringDiameter]
  have hdiameter : ringDiameter 9 1 1 2 = 1 := by norm_num [ringDiameter]
  have hdiameters : [0, 1, 2].map (ringDiameter 9 1 1) = [9, 5, 1] := by norm_num [ringDiameter]
  obtain ⟨hshapes, hcovers, -⟩ := shapes_moire_rings "M" (hvalue 0) hcenter (hvalue 0) (hvalue 9)
    (hvalue 1) (hvalue 1) (hvalue 5) (hvalue 0) (hvalue 0) one_pos zero_le_one
  rw [hdrawn] at hshapes hcovers
  have hlast := (hcovers 2 (by simp)).2
  simp only [hdiameter] at hlast
  constructor
  · rw [← hdiameters, List.map_map]
    exact congrArg Step.result hshapes
  · rw [hlast]
    norm_num

end Photoplot
