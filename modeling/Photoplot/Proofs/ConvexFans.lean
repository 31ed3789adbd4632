import Mathlib.Analysis.Complex.Angle
import Photoplot.Proofs.Fans

/-!
# Fans of Convex Outlines

A convex outline is drawn as the fan of triangles from its first vertex, instead of by the even-odd
rule. That an outline is taken for convex only means that no two of its turns are to different
sides. This module says for which of these outlines the fan is as good as the rule.

The triangles of any fan add up to the shoelace sum, so they have the area of the outline if and
only if all of them turn to the same side. They do if the outline goes around once without
repeating a vertex. Then they do not overlap either, and together they are what the rule covers.
Neither condition is implied by the turns. An outline that goes around twice, as a pentagram does,
has all its turns to one side, and one that says every vertex twice has no turns at all.

Everything here is about the real numbers.

## Main definitions

* `Outline.WindsOnce`: no vertex repeats the one before, and the turns make one full turn at most.
* `FanTiles`: the fan is as good as the even-odd rule.

## Main results

* `sum_abs_fanOf_iff`: the area of the triangles of a fan.
* `evenOdd_iff_fanOf`: the even-odd rule in terms of the triangles of a fan.
* `fan_of_isConvex`: the fan of an outline that is taken for convex.
-/

namespace Photoplot

open Outline Real Finset

/-! ### Outlines as walks -/

namespace Outline

/-- The angles of the turns at all vertices, beginning with the second one. -/
noncomputable def turnAngles (vertices : List (Point ℝ)) : List ℝ :=
  let next := successors vertices
  (vertices.zip (next.zip (successors next))).map fun (p, q, r) => turnAngle p q r

/-- An outline that goes around once: no vertex repeats the one before, and the turns add up to no
more than a full turn. -/
structure WindsOnce (vertices : List (Point ℝ)) : Prop where
  moves : ∀ e ∈ vertices.zip (successors vertices), e.1 ≠ e.2
  sum_turnAngles_le : (turnAngles vertices).sum ≤ 2 * π

variable {vertices : List (Point ℝ)}

/-- The vertex after the next one, cyclically. -/
theorem successors_successors (vertices : List (Point ℝ)) :
    successors (successors vertices) = (List.range vertices.length).map fun k =>
      corner vertices ((if k + 1 < vertices.length then k + 1 else 0) + 1) := by
  rw [successors_eq vertices, successors_map_range]

/-- Three vertices in a row. -/
theorem zip_zip_successors (vertices : List (Point ℝ)) :
    vertices.zip ((successors vertices).zip (successors (successors vertices))) =
      (List.range vertices.length).map fun k => (corner vertices k, corner vertices (k + 1),
        corner vertices ((if k + 1 < vertices.length then k + 1 else 0) + 1)) := by
  rw [successors_successors, successors_eq, List.zip_map']
  conv_lhs =>
    arg 1
    rw [← map_corner vertices]
  rw [List.zip_map']

/-- The first turn decides to which side an outline may turn. -/
theorem isConvex_iff_of_turns_eq {first : ℝ} {rest : List ℝ} (hlength : 3 ≤ vertices.length)
    (hturns : turns vertices = first :: rest) : isConvex vertices = true ↔
      (0 < first ∧ ∀ t ∈ rest, 0 ≤ t) ∨ (first ≤ 0 ∧ ∀ t ∈ rest, t ≤ 0) := by
  rw [isConvex, if_neg hlength.not_gt, hturns]
  dsimp only
  rw [Scalar.zero_real]
  by_cases hfirst : 0 < first
  · simp [hfirst]
  · simp [hfirst, not_lt.mp hfirst]

/-- **A convex outline** never turns to one of the sides. -/
theorem turns_of_isConvex (hconvex : isConvex vertices = true) (hlength : 3 ≤ vertices.length) :
    (∀ t ∈ turns vertices, 0 ≤ t) ∨ ∀ t ∈ turns vertices, t ≤ 0 := by
  cases hturns : turns vertices with
  | nil => exact .inl fun t ht => nomatch ht
  | cons first rest =>
      rcases (isConvex_iff_of_turns_eq hlength hturns).mp hconvex with ⟨hfirst, hrest⟩ | hright
      · exact .inl (List.forall_mem_cons.mpr ⟨hfirst.le, hrest⟩)
      · exact .inr (List.forall_mem_cons.mpr hright)

/-- Turns to the left only, or none of them, make an outline convex. -/
theorem isConvex_of_turns (h : (∀ t ∈ turns vertices, 0 < t) ∨ ∀ t ∈ turns vertices, t ≤ 0) :
    isConvex vertices = true := by
  by_cases hlength : vertices.length < 3
  · rw [isConvex, if_pos hlength]
  · cases hturns : turns vertices with
    | nil => rw [isConvex, if_neg hlength, hturns]
    | cons first rest =>
        rw [hturns, List.forall_mem_cons, List.forall_mem_cons] at h
        refine (isConvex_iff_of_turns_eq (not_lt.mp hlength) hturns).mpr ?_
        exact h.imp_left fun ⟨hfirst, hrest⟩ => ⟨hfirst, fun t ht => (hrest t ht).le⟩

/-- A corner between perpendicular edges is a right angle. -/
theorem turnAngle_of_perpendicular {p q r : Point ℝ}
    (h : (q.x - p.x) * (r.x - q.x) + (q.y - p.y) * (r.y - q.y) = 0) : turnAngle p q r = π / 2 := by
  rw [turnAngle, ← InnerProductGeometry.inner_eq_zero_iff_angle_eq_pi_div_two, inner_toComplex]
  exact h

/-- An outline that is convex and goes around once is a walk that turns once. -/
theorem WindsOnce.exists_turnsOnce (h : WindsOnce vertices) (hconvex : isConvex vertices = true)
    (hlength : 3 ≤ vertices.length) :
    ∃ side, TurnsOnce (corner vertices) vertices.length side := by
  have hmem (k : ℕ) (hk : k + 1 < vertices.length) :
      turn (corner vertices k) (corner vertices (k + 1)) (corner vertices (k + 2)) ∈
        turns vertices := by
    rw [turns, zip_zip_successors, List.map_map]
    refine List.mem_map.mpr ⟨k, List.mem_range.mpr (by omega), ?_⟩
    show turn _ _ (corner vertices ((if k + 1 < vertices.length then k + 1 else 0) + 1)) = _
    rw [if_pos hk]
  have hmoves (k : ℕ) (hk : k < vertices.length) : corner vertices (k + 1) ≠ corner vertices k := by
    refine fun heq => h.moves (corner vertices k, corner vertices (k + 1)) ?_ heq.symm
    rw [zip_successors]
    exact List.mem_map.mpr ⟨k, List.mem_range.mpr hk, rfl⟩
  have hsum : ∑ k ∈ range (vertices.length - 1), turnAngle (corner vertices k)
      (corner vertices (k + 1)) (corner vertices (k + 2)) ≤ 2 * π := by
    refine le_trans ?_ h.sum_turnAngles_le
    obtain ⟨n, hn⟩ : ∃ n, vertices.length = n + 1 := ⟨vertices.length - 1, by omega⟩
    rw [turnAngles, zip_zip_successors, List.map_map, sum_map_range, hn, sum_range_succ,
      Nat.add_sub_cancel]
    refine le_add_of_le_of_nonneg (le_of_eq (sum_congr rfl fun k hk => ?_))
      (InnerProductGeometry.angle_nonneg _ _)
    show _ = turnAngle _ _ (corner vertices ((if k + 1 < n + 1 then k + 1 else 0) + 1))
    rw [if_pos (Nat.succ_lt_succ (Finset.mem_range.mp hk))]
  rcases turns_of_isConvex hconvex hlength with hleft | hright
  · refine ⟨1, .inl rfl, corner_length vertices, hmoves, fun k hk => ?_, hsum⟩
    rw [one_mul]
    exact hleft _ (hmem k hk)
  · refine ⟨-1, .inr rfl, corner_length vertices, hmoves, fun k hk => ?_, hsum⟩
    rw [neg_one_mul, neg_nonneg]
    exact hright _ (hmem k hk)

end Outline

/-! ### Fans that tile -/

section

variable {vertices : List (Point ℝ)} {p : Point ℝ}

/-- Numbers whose sum is as large as that of their magnitudes do not differ in sign. -/
theorem sum_abs_eq_abs_sum_iff {ι : Type*} {s : Finset ι} {f : ι → ℝ} :
    ∑ i ∈ s, |f i| = |∑ i ∈ s, f i| ↔ (∀ i ∈ s, 0 ≤ f i) ∨ ∀ i ∈ s, f i ≤ 0 := by
  constructor
  · intro h
    rcases le_total 0 (∑ i ∈ s, f i) with hsum | hsum
    · rw [abs_of_nonneg hsum, ← sub_eq_zero, ← sum_sub_distrib] at h
      have hzero := (sum_eq_zero_iff_of_nonneg fun i _ => sub_nonneg.mpr (le_abs_self (f i))).mp h
      exact .inl fun i hi => abs_eq_self.mp (sub_eq_zero.mp (hzero i hi))
    · rw [abs_of_nonpos hsum, ← sub_eq_zero, sub_neg_eq_add, ← sum_add_distrib] at h
      have hzero := (sum_eq_zero_iff_of_nonneg fun i _ =>
        neg_le_iff_add_nonneg.mp (neg_le_abs (f i))).mp h
      exact .inr fun i hi => abs_eq_neg_self.mp (eq_neg_of_add_eq_zero_left (hzero i hi))
  · rintro (h | h)
    · rw [abs_of_nonneg (sum_nonneg h)]
      exact sum_congr rfl fun i hi => abs_of_nonneg (h i hi)
    · rw [abs_of_nonpos (sum_nonpos h), ← sum_neg_distrib]
      exact sum_congr rfl fun i hi => abs_of_nonpos (h i hi)

/-- **The triangles of a fan** have the area of the outline if and only if no two of them have
opposite orientations. -/
theorem sum_abs_fanOf_iff (vertices : List (Point ℝ)) :
    ((fanOf vertices).map fun t => |t.signedArea|).sum = |Outline.signedArea vertices| ↔
      (∀ t ∈ fanOf vertices, 0 ≤ t.signedArea) ∨ ∀ t ∈ fanOf vertices, t.signedArea ≤ 0 := by
  rw [signedArea_eq_sum_fanOf, fanOf_eq, List.map_map, List.map_map, sum_map_range, sum_map_range]
  refine sum_abs_eq_abs_sum_iff.trans ?_
  simp only [List.forall_mem_map, List.mem_range, Finset.mem_range]

/-- When triangles of a fan turn both ways, their areas add up to more than that of the outline. -/
theorem sum_abs_fanOf_ne (t t' : Triangle) (ht : t ∈ fanOf vertices) (ht' : t' ∈ fanOf vertices)
    (hneg : t.signedArea < 0) (hpos : 0 < t'.signedArea) :
    ((fanOf vertices).map fun t => |t.signedArea|).sum ≠ |Outline.signedArea vertices| := by
  intro h
  rcases (sum_abs_fanOf_iff vertices).mp h with hall | hall
  · exact (hall t ht).not_gt hneg
  · exact (hall t' ht').not_gt hpos

/-- A triangle is seen from inside as it is oriented. -/
theorem Triangle.Inside.side {t : Triangle} {side : ℝ} (h : t.Inside p)
    (hside : side = 1 ∨ side = -1) (harea : 0 ≤ side * t.signedArea) :
    0 < side * turn t.a t.b p ∧ 0 < side * turn t.b t.c p ∧ 0 < side * turn t.c t.a p := by
  have hsum : t.signedArea = turn t.a t.b p + turn t.b t.c p + turn t.c t.a p := by
    rw [turn_eq_seen, turn_eq_seen, turn_eq_seen]
    show (_ - _) * (_ - _) - (_ - _) * (_ - _) = _
    ring
  rcases h with ⟨hab, hbc, hca⟩ | ⟨hab, hbc, hca⟩ <;> rcases hside with rfl | rfl
  · simpa using ⟨hab, hbc, hca⟩
  · linarith
  · linarith
  · simpa using ⟨hab, hbc, hca⟩

/-- A count modulo two is a sum of indicators. -/
theorem cast_countP {β : Type*} (P : β → Prop) [DecidablePred P] (l : List β) :
    (l.countP (fun x => P x) : ZMod 2) = (l.map fun x => if P x then (1 : ZMod 2) else 0).sum := by
  induction l with
  | nil => rfl
  | cons x l ih =>
      rw [List.countP_cons, List.map_cons, List.sum_cons, Nat.cast_add, ih, add_comm]
      by_cases hx : P x <;> simp [hx]

/-- Indicators of which no two hold together sum up to one exactly when one of them holds. -/
theorem sum_indicator {β : Type*} (P : β → Prop) [DecidablePred P] {l : List β}
    (h : l.Pairwise fun x y => ¬ (P x ∧ P y)) :
    (l.map fun x => if P x then (1 : ZMod 2) else 0).sum = 1 ↔ ∃ x ∈ l, P x := by
  induction l with
  | nil => simp
  | cons x l ih =>
      obtain ⟨hfirst, hrest⟩ := List.pairwise_cons.mp h
      rw [List.map_cons, List.sum_cons, List.exists_mem_cons_iff]
      by_cases hx : P x
      · have hnone : ∀ y ∈ l, ¬ P y := fun y hy hPy => hfirst y hy ⟨hx, hPy⟩
        rw [List.map_congr_left (g := fun _ => 0) fun y hy => if_neg (hnone y hy)]
        simp [hx]
      · rw [if_neg hx, zero_add, ih hrest]
        simp [hx]

/-- An edge is crossed like its triangle with a third vertex, but for the two edges to that
vertex. -/
theorem crossing_eq_add (p a q r : Point ℝ) :
    crossing p q r = Triangle.crossings ⟨a, q, r⟩ p + (crossing p a r - crossing p a q) := by
  have htwice := CharTwo.add_self_eq_zero (crossing p a r)
  rw [Triangle.crossings, crossing_swap p a r]
  linear_combination -htwice

/-- A triangle that repeats its first vertex is crossed at neither edge or at both. -/
theorem crossings_of_eq {p a q r : Point ℝ} (h : q = a ∨ r = a) :
    Triangle.crossings ⟨a, q, r⟩ p = 0 := by
  rcases h with rfl | rfl
  · rw [Triangle.crossings, crossing_self, zero_add, crossing_swap p q r,
      CharTwo.add_self_eq_zero]
  · rw [Triangle.crossings, crossing_self, add_zero, crossing_swap p r q,
      CharTwo.add_self_eq_zero]

/-- The edges of an outline that are crossed, modulo two, are those of the triangles of the fan. -/
theorem cast_countP_crosses (vertices : List (Point ℝ)) (p : Point ℝ) :
    ((vertices.zip (successors vertices)).countP fun e => Crosses p e.1 e.2 : ZMod 2) =
      ((fanOf vertices).map fun t => t.crossings p).sum := by
  have hends (k : ℕ) (hk : k = 0 ∨ k + 1 = vertices.length) :
      Triangle.crossings ⟨corner vertices 0, corner vertices k, corner vertices (k + 1)⟩ p = 0 := by
    refine crossings_of_eq ?_
    rcases hk with rfl | hk
    · exact .inl rfl
    · exact .inr (by rw [hk, corner_length])
  rw [cast_countP, zip_successors, List.map_map, sum_map_range]
  calc ∑ k ∈ range vertices.length, crossing p (corner vertices k) (corner vertices (k + 1))
      = ∑ k ∈ range vertices.length, Triangle.crossings
          ⟨corner vertices 0, corner vertices k, corner vertices (k + 1)⟩ p := by
        rw [sum_congr rfl fun k _ => crossing_eq_add p (corner vertices 0) _ _, sum_add_distrib,
          sum_range_sub fun k => crossing p (corner vertices 0) (corner vertices k),
          corner_length, sub_self, add_zero]
    _ = ∑ i ∈ range (vertices.length - 2), Triangle.crossings
          ⟨corner vertices 0, corner vertices (i + 1), corner vertices (i + 2)⟩ p :=
        sum_fan (hends 0 (.inl rfl)) (hends (vertices.length - 1) (by omega))
    _ = ((fanOf vertices).map fun t => t.crossings p).sum := by
        rw [fanOf_eq, List.map_map, sum_map_range]
        rfl

/-- **The even-odd rule** covers what is inside of an odd number of triangles of the fan. -/
theorem evenOdd_iff_fanOf (hoff : ∀ t ∈ fanOf vertices, ¬ t.OnEdge p) :
    EvenOdd vertices p ↔
      ((fanOf vertices).map fun t => if t.Inside p then (1 : ZMod 2) else 0).sum = 1 := by
  rw [EvenOdd, ← ZMod.natCast_eq_one_iff_odd, cast_countP_crosses,
    List.map_congr_left fun t ht => Triangle.crossings_eq t (hoff t ht)]

/-- A fan **tiles** an outline: its triangles have the area of the outline, no two overlap, and
together they are what the even-odd rule covers, but for their edges. -/
structure FanTiles (vertices : List (Point ℝ)) : Prop where
  area : ((fanOf vertices).map fun t => |t.signedArea|).sum = |Outline.signedArea vertices|
  disjoint : (fanOf vertices).Pairwise fun t t' => ∀ p, ¬ (t.Inside p ∧ t'.Inside p)
  covers : ∀ p, (∀ t ∈ fanOf vertices, ¬ t.OnEdge p) →
    (EvenOdd vertices p ↔ ∃ t ∈ fanOf vertices, t.Inside p)

section

variable {side : ℝ} (h : TurnsOnce (corner vertices) vertices.length side)

include h

/-- No triangle of the fan of an outline that turns once is turned the other way. -/
theorem Outline.TurnsOnce.nonneg_of_mem_fanOf {t : Triangle} (ht : t ∈ fanOf vertices) :
    0 ≤ side * t.signedArea := by
  obtain ⟨i, hi, rfl⟩ := mem_fanOf.mp ht
  exact h.fan_nonneg (by have := Finset.mem_range.mp hi; omega)

/-- What is inside of a triangle lies between the directions to two vertices in a row. -/
theorem Outline.TurnsOnce.between {k : ℕ} (hk : k < vertices.length - 2)
    (hin : Triangle.Inside
      ⟨corner vertices 0, corner vertices (k + 1), corner vertices (k + 2)⟩ p) :
    0 < side * cross (corner vertices (k + 1) - corner vertices 0) (p - corner vertices 0) ∧
      side * cross (corner vertices (k + 2) - corner vertices 0) (p - corner vertices 0) < 0 := by
  have hmem := mem_fanOf.mpr ⟨k, Finset.mem_range.mpr hk, rfl⟩
  obtain ⟨hab, -, hca⟩ := hin.side h.side_eq (h.nonneg_of_mem_fanOf hmem)
  rw [← turn_eq_cross_left, ← turn_eq_cross_left]
  refine ⟨hab, ?_⟩
  dsimp only at hca
  rw [turn_swap, mul_neg] at hca
  exact neg_pos.mp hca

/-- No two triangles of the fan overlap. -/
theorem Outline.TurnsOnce.pairwise_fanOf :
    (fanOf vertices).Pairwise fun t t' => ∀ p, ¬ (t.Inside p ∧ t'.Inside p) := by
  rw [fanOf_eq, List.pairwise_map]
  refine List.pairwise_lt_range.imp_of_mem fun {i j} hi hj hij p => ?_
  rintro ⟨hp, hp'⟩
  have hlt := List.mem_range.mp hj
  exact h.fan_disjoint (p - corner vertices 0) (Nat.succ_lt_succ hij) (by omega)
    ⟨h.between (by omega) hp, h.between hlt hp'⟩

/-- The fan of an outline that turns once tiles its inside. -/
theorem Outline.TurnsOnce.fanTiles : FanTiles vertices := by
  have hdisjoint := h.pairwise_fanOf
  refine ⟨(sum_abs_fanOf_iff vertices).mpr ?_, hdisjoint, fun p hoff => ?_⟩
  · rcases h.side_eq with rfl | rfl
    · exact .inl fun t ht => by simpa using h.nonneg_of_mem_fanOf ht
    · exact .inr fun t ht => by simpa using h.nonneg_of_mem_fanOf ht
  · rw [evenOdd_iff_fanOf hoff]
    exact sum_indicator (fun t : Triangle => t.Inside p) (hdisjoint.imp fun h => h p)

end

/-- **The fan of a convex outline.** Its triangles have the area of the outline if and only if no
two of them have opposite orientations. If no vertex repeats the one before and the turns add up to
no more than a full turn, the fan tiles the outline. -/
theorem fan_of_isConvex (hconvex : isConvex vertices = true) :
    (((fanOf vertices).map fun t => |t.signedArea|).sum = |Outline.signedArea vertices| ↔
      (∀ t ∈ fanOf vertices, 0 ≤ t.signedArea) ∨ ∀ t ∈ fanOf vertices, t.signedArea ≤ 0) ∧
    ((3 ≤ vertices.length → WindsOnce vertices) → FanTiles vertices) := by
  refine ⟨sum_abs_fanOf_iff vertices, fun hwinds => ?_⟩
  by_cases hlength : 3 ≤ vertices.length
  · obtain ⟨side, hturns⟩ := (hwinds hlength).exists_turnsOnce hconvex hlength
    exact hturns.fanTiles
  · have hnone : fanOf vertices = [] := by
      rw [fanOf_eq, Nat.sub_eq_zero_of_le (by omega), List.range_zero, List.map_nil]
    refine ⟨(sum_abs_fanOf_iff vertices).mpr (.inl ?_), ?_, fun p hoff => ?_⟩
    · rw [hnone]
      exact fun t ht => nomatch ht
    · rw [hnone]
      exact .nil
    · rw [evenOdd_iff_fanOf hoff, hnone]
      simp

end

/-- The corners of the unit square. -/
def unitSquare : List (Point ℝ) := [⟨0, 0⟩, ⟨1, 0⟩, ⟨1, 1⟩, ⟨0, 1⟩]

/-- The unit square winds once. -/
theorem windsOnce_unitSquare : WindsOnce unitSquare := by
  refine ⟨by simp [unitSquare, successors], ?_⟩
  have hangles : turnAngles unitSquare = List.replicate 4 (π / 2) := by
    simp [turnAngles, unitSquare, successors, turnAngle_of_perpendicular]
  rw [hangles, List.sum_replicate, nsmul_eq_mul]
  exact le_of_eq (by push_cast; ring)

/-- The fan of the unit square tiles it. -/
theorem fanTiles_unitSquare :
    isConvex unitSquare = true ∧ WindsOnce unitSquare ∧ FanTiles unitSquare := by
  have hconvex : isConvex unitSquare = true := by
    refine isConvex_of_turns (.inl ?_)
    simp [turns, successors, unitSquare, turn_eq_seen]
  exact ⟨hconvex, windsOnce_unitSquare, (fan_of_isConvex hconvex).2 fun _ => windsOnce_unitSquare⟩

/-- A star of five edges. It turns to the left at all corners and goes around twice. -/
noncomputable def pentagram : List (Point ℝ) := [⟨0, 0⟩, ⟨5, 3⟩, ⟨-1, 3⟩, ⟨4, 0⟩, ⟨2, 5⟩]

/-- An arrowhead with a dent, every corner of which is said twice. -/
noncomputable def doubledArrowhead : List (Point ℝ) :=
  [⟨4, 0⟩, ⟨4, 0⟩, ⟨1, 1⟩, ⟨1, 1⟩, ⟨0, 4⟩, ⟨0, 4⟩, ⟨0, 0⟩, ⟨0, 0⟩]

/-- Two outlines that are taken for convex although the triangles of their fans overlap with
opposite orientations. -/
theorem sum_abs_fanOf_ne_pentagram :
    (isConvex pentagram = true ∧
      ((fanOf pentagram).map fun t => |t.signedArea|).sum ≠ |Outline.signedArea pentagram|) ∧
    isConvex doubledArrowhead = true ∧
      ((fanOf doubledArrowhead).map fun t => |t.signedArea|).sum ≠
        |Outline.signedArea doubledArrowhead| := by
  refine ⟨⟨isConvex_of_turns (.inl ?_), ?_⟩, isConvex_of_turns (.inr ?_), ?_⟩
  · simp [turns, successors, pentagram, turn_eq_seen]
    norm_num
  · refine sum_abs_fanOf_ne ⟨⟨0, 0⟩, ⟨-1, 3⟩, ⟨4, 0⟩⟩ ⟨⟨0, 0⟩, ⟨5, 3⟩, ⟨-1, 3⟩⟩
      (mem_fanOf.mpr ⟨1, by simp [pentagram], rfl⟩) (mem_fanOf.mpr ⟨0, by simp [pentagram], rfl⟩)
      ?_ ?_
    · norm_num [Triangle.signedArea, turn_eq_seen]
    · norm_num [Triangle.signedArea, turn_eq_seen]
  · simp [turns, successors, doubledArrowhead, turn_eq_seen]
  · refine sum_abs_fanOf_ne ⟨⟨4, 0⟩, ⟨1, 1⟩, ⟨0, 4⟩⟩ ⟨⟨4, 0⟩, ⟨0, 4⟩, ⟨0, 0⟩⟩
      (mem_fanOf.mpr ⟨2, by simp [doubledArrowhead], rfl⟩)
      (mem_fanOf.mpr ⟨4, by simp [doubledArrowhead], rfl⟩) ?_ ?_
    · norm_num [Triangle.signedArea, turn_eq_seen]
    · norm_num [Triangle.signedArea, turn_eq_seen]

end Photoplot
