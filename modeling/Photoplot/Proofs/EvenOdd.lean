import Mathlib.Algebra.CharP.Two
import Mathlib.Algebra.Field.ZMod
import Photoplot.Proofs.TurningOnce

/-!
# The Even-Odd Rule

A point is covered by the **even-odd rule** if the ray from it to the right crosses an outline an
odd number of times. For a triangle that is the same as to be inside of it, unless the point is on
an edge.

Crossings are counted modulo two. There an edge that is walked to and fro does not count, which is
what lets the crossings of an outline be put together from those of triangles.

## Edge convention

The lower end of an edge belongs to it and the upper one does not. A ray through a corner so
crosses the edges that go up from there, and none that goes down.

## Main definitions

* `Triangle`: three corners, with its signed area and what is inside of it.
* `Outline.Crosses`, `Outline.EvenOdd`: the rule.

## Main results

* `Triangle.crossings_eq`: the crossings of a triangle, modulo two.
-/

namespace Photoplot

open Outline

/-! ### Triangles -/

/-- A triangle by its corners, in order. -/
structure Triangle where
  a : Point ℝ
  b : Point ℝ
  c : Point ℝ

namespace Triangle

/-- Twice the area of a triangle, positive if its corners turn to the left. -/
noncomputable def signedArea (t : Triangle) : ℝ := turn t.a t.b t.c

/-- The point is inside of the triangle, on the same side of all edges. -/
def Inside (t : Triangle) (p : Point ℝ) : Prop :=
  (0 < turn t.a t.b p ∧ 0 < turn t.b t.c p ∧ 0 < turn t.c t.a p) ∨
    (turn t.a t.b p < 0 ∧ turn t.b t.c p < 0 ∧ turn t.c t.a p < 0)

noncomputable instance (t : Triangle) (p : Point ℝ) : Decidable (t.Inside p) :=
  inferInstanceAs (Decidable ((_ ∧ _ ∧ _) ∨ _ ∧ _ ∧ _))

/-- The point is on the segment between two others: on their line, and it does not see both in
one direction. -/
def Between (p a b : Point ℝ) : Prop :=
  turn a b p = 0 ∧ (a.x - p.x) * (b.x - p.x) + (a.y - p.y) * (b.y - p.y) ≤ 0

/-- The point is on an edge of the triangle. -/
def OnEdge (t : Triangle) (p : Point ℝ) : Prop :=
  Between p t.a t.b ∨ Between p t.b t.c ∨ Between p t.c t.a

end Triangle

/-! ### The even-odd rule -/

namespace Outline

/-- The ray from a point to the right crosses an edge. Of its two ends only the lower one counts
as part of an edge. -/
def Crosses (p a b : Point ℝ) : Prop :=
  (a.y ≤ p.y ∧ p.y < b.y ∧ 0 < turn a b p) ∨ (b.y ≤ p.y ∧ p.y < a.y ∧ turn a b p < 0)

noncomputable instance (p a b : Point ℝ) : Decidable (Crosses p a b) :=
  inferInstanceAs (Decidable ((_ ∧ _ ∧ _) ∨ _ ∧ _ ∧ _))

/-- The point is covered by the **even-odd rule**. -/
def EvenOdd (vertices : List (Point ℝ)) (p : Point ℝ) : Prop :=
  Odd ((vertices.zip (successors vertices)).countP fun e => Crosses p e.1 e.2)

/-- The number of crossings of an edge, modulo two. -/
noncomputable def crossing (p a b : Point ℝ) : ZMod 2 := if Crosses p a b then 1 else 0

variable {p a b c : Point ℝ}

/-- Seen from the other end of an edge a point lies on the other side. -/
theorem turn_swap (a b p : Point ℝ) : turn b a p = -turn a b p := by
  show (_ - _) * (_ - _) - (_ - _) * (_ - _) = -((_ - _) * (_ - _) - (_ - _) * (_ - _))
  ring

/-- An edge is crossed in whichever direction it is taken. -/
theorem crosses_swap : Crosses p b a ↔ Crosses p a b := by
  rw [Crosses, Crosses, turn_swap a b, neg_pos, neg_lt_zero, or_comm]

/-- An edge counts the same in both directions. -/
theorem crossing_swap (p a b : Point ℝ) : crossing p b a = crossing p a b := by
  rw [crossing, crossing, if_congr crosses_swap rfl rfl]

/-- An edge without length is not crossed. -/
theorem crossing_self (p a : Point ℝ) : crossing p a a = 0 := by
  refine if_neg ?_
  rintro (⟨hle, hlt, -⟩ | ⟨hle, hlt, -⟩) <;> exact hle.not_gt hlt

/-- An edge as it is seen from a point. -/
theorem turn_eq_seen (a b p : Point ℝ) :
    turn a b p = (a.x - p.x) * (b.y - p.y) - (a.y - p.y) * (b.x - p.x) := by
  show (_ - _) * (_ - _) - (_ - _) * (_ - _) = _
  ring

/-- Three edges around a point balance. -/
theorem turn_balance (p a b c : Point ℝ) :
    turn b c p * (a.y - p.y) + turn c a p * (b.y - p.y) + turn a b p * (c.y - p.y) = 0 := by
  rw [turn_eq_seen, turn_eq_seen, turn_eq_seen]
  ring

/-- An edge that leads up past a point is crossed when the point is on its left. -/
theorem crossing_of_up (ha : a.y ≤ p.y) (hb : p.y < b.y) :
    crossing p a b = if 0 < turn a b p then 1 else 0 := by
  have hcrosses : Crosses p a b ↔ 0 < turn a b p := by
    constructor
    · rintro (⟨-, -, hturn⟩ | ⟨hle, -, -⟩)
      · exact hturn
      · exact absurd hb hle.not_gt
    · exact fun hturn => .inl ⟨ha, hb, hturn⟩
  rw [crossing, if_congr hcrosses rfl rfl]

/-- An edge that leads down past a point is crossed when the point is on its right. -/
theorem crossing_of_down (ha : p.y < a.y) (hb : b.y ≤ p.y) :
    crossing p a b = if turn a b p < 0 then 1 else 0 := by
  rw [crossing_swap p b a, crossing_of_up hb ha, turn_swap a b]
  exact if_congr neg_pos rfl rfl

/-- An edge below a point is not crossed. -/
theorem crossing_of_below (ha : a.y ≤ p.y) (hb : b.y ≤ p.y) : crossing p a b = 0 := by
  refine if_neg ?_
  rintro (⟨-, hlt, -⟩ | ⟨-, hlt, -⟩)
  · exact hb.not_gt hlt
  · exact ha.not_gt hlt

/-- An edge above a point is not crossed. -/
theorem crossing_of_above (ha : p.y < a.y) (hb : p.y < b.y) : crossing p a b = 0 := by
  refine if_neg ?_
  rintro (⟨hle, -, -⟩ | ⟨hle, -, -⟩)
  · exact hle.not_gt ha
  · exact hle.not_gt hb

end Outline

namespace Triangle

variable {p a b c : Point ℝ}

/-- A point on the line of an edge that spans its height is on the edge. -/
theorem between_of_spans (hturn : turn a b p = 0) (ha : a.y ≤ p.y) (hb : p.y < b.y) :
    Between p a b := by
  refine ⟨hturn, ?_⟩
  have hline : (b.x - a.x) * (p.y - a.y) = (b.y - a.y) * (p.x - a.x) := by
    rw [turn_eq_seen] at hturn
    linarith
  have hheight : 0 < b.y - a.y := by linarith
  have hleft : (a.x - p.x) * (b.y - a.y) = -((b.x - a.x) * (p.y - a.y)) := by rw [hline]; ring
  have hright : (b.x - p.x) * (b.y - a.y) = (b.x - a.x) * (b.y - p.y) := by linarith
  have hproduct : (a.x - p.x) * (b.x - p.x) * (b.y - a.y) ^ 2 ≤ 0 := by
    calc (a.x - p.x) * (b.x - p.x) * (b.y - a.y) ^ 2
        = ((a.x - p.x) * (b.y - a.y)) * ((b.x - p.x) * (b.y - a.y)) := by ring
      _ = -((b.x - a.x) ^ 2 * ((p.y - a.y) * (b.y - p.y))) := by rw [hleft, hright]; ring
      _ ≤ 0 := neg_nonpos.mpr (mul_nonneg (sq_nonneg _)
          (mul_nonneg (by linarith) (by linarith)))
  have hx : (a.x - p.x) * (b.x - p.x) ≤ 0 := nonpos_of_mul_nonpos_left hproduct (by positivity)
  have hy : (a.y - p.y) * (b.y - p.y) ≤ 0 :=
    mul_nonpos_of_nonpos_of_nonneg (by linarith) (by linarith)
  linarith

/-- A point between two others is between them in the other order. -/
theorem between_swap (h : Between p a b) : Between p b a := by
  refine ⟨by rw [turn_swap a b, h.1, neg_zero], ?_⟩
  linarith [h.2]

/-- The inside of a triangle does not depend on the corner that it begins with. -/
theorem inside_rotate : Inside ⟨b, c, a⟩ p ↔ Inside ⟨a, b, c⟩ p := by
  constructor
  · rintro (⟨h₁, h₂, h₃⟩ | ⟨h₁, h₂, h₃⟩)
    · exact .inl ⟨h₃, h₁, h₂⟩
    · exact .inr ⟨h₃, h₁, h₂⟩
  · rintro (⟨h₁, h₂, h₃⟩ | ⟨h₁, h₂, h₃⟩)
    · exact .inl ⟨h₂, h₃, h₁⟩
    · exact .inr ⟨h₂, h₃, h₁⟩

/-- The edges of a triangle do not depend on the corner that it begins with. -/
theorem onEdge_rotate : OnEdge ⟨b, c, a⟩ p ↔ OnEdge ⟨a, b, c⟩ p := by
  show _ ∨ _ ∨ _ ↔ _ ∨ _ ∨ _
  tauto

/-- A point below two corners and not below the third. -/
theorem turn_pos_of_low (ha : a.y ≤ p.y) (hb : p.y < b.y) (hc : p.y < c.y)
    (hab : 0 < turn a b p) (hca : 0 < turn c a p) : 0 < turn b c p := by
  have hbalance := turn_balance p a b c
  have hb' := mul_pos hca (sub_pos.mpr hb)
  have hc' := mul_pos hab (sub_pos.mpr hc)
  refine pos_of_mul_neg_left (b := a.y - p.y) ?_ (sub_nonpos.mpr ha)
  linarith

/-- With one corner below, a point on the right of both edges at it is on the right of the third
one. -/
theorem turn_neg_of_low (ha : a.y ≤ p.y) (hb : p.y < b.y) (hc : p.y < c.y)
    (hab : turn a b p < 0) (hca : turn c a p < 0) : turn b c p < 0 := by
  have hturn := turn_pos_of_low ha hc hb (by rw [turn_swap c a]; linarith)
    (by rw [turn_swap a b]; linarith)
  rw [turn_swap b c] at hturn
  linarith

/-- A point below one corner and not below the others. -/
theorem turn_pos_of_high (ha : a.y ≤ p.y) (hb : b.y ≤ p.y) (hc : p.y < c.y)
    (hoff : ¬ Between p a b) (hbc : 0 < turn b c p) (hca : 0 < turn c a p) : 0 < turn a b p := by
  have hbalance := turn_balance p a b c
  have ha' := mul_nonpos_of_nonneg_of_nonpos hbc.le (sub_nonpos.mpr ha)
  have hb' := mul_nonpos_of_nonneg_of_nonpos hca.le (sub_nonpos.mpr hb)
  have hnonneg : 0 ≤ turn a b p := by
    refine nonneg_of_mul_nonneg_left (b := c.y - p.y) ?_ (sub_pos.mpr hc)
    linarith
  refine lt_of_le_of_ne hnonneg fun hzero => hoff ⟨hzero.symm, ?_⟩
  -- The edge is level with the point, and its ends are to the left and to the right of it.
  rw [← hzero, zero_mul, add_zero] at hbalance
  have hay : a.y - p.y = 0 := by
    have hproduct : turn b c p * (a.y - p.y) = 0 := by linarith
    exact (mul_eq_zero.mp hproduct).resolve_left hbc.ne'
  have hby : b.y - p.y = 0 := by
    have hproduct : turn c a p * (b.y - p.y) = 0 := by linarith
    exact (mul_eq_zero.mp hproduct).resolve_left hca.ne'
  have hbx : 0 < b.x - p.x := by
    rw [turn_eq_seen, hby, zero_mul, sub_zero] at hbc
    exact pos_of_mul_pos_left hbc (sub_nonneg.mpr hc.le)
  have hax : a.x - p.x < 0 := by
    rw [turn_eq_seen, hay, mul_zero, zero_sub, neg_pos] at hca
    exact neg_of_mul_neg_right hca (sub_nonneg.mpr hc.le)
  rw [hay, zero_mul, add_zero]
  exact (mul_neg_of_neg_of_pos hax hbx).le

/-- With one corner above, a point on the right of both edges at it is on the right of the third
one, unless it lies on that. -/
theorem turn_neg_of_high (ha : a.y ≤ p.y) (hb : b.y ≤ p.y) (hc : p.y < c.y)
    (hoff : ¬ Between p a b) (hbc : turn b c p < 0) (hca : turn c a p < 0) : turn a b p < 0 := by
  have hturn := turn_pos_of_high hb ha hc (fun h => hoff (between_swap h))
    (by rw [turn_swap c a]; linarith) (by rw [turn_swap b c]; linarith)
  rw [turn_swap a b] at hturn
  linarith

/-- How often the three edges of a triangle are crossed, modulo two. -/
noncomputable def crossings (t : Triangle) (p : Point ℝ) : ZMod 2 :=
  crossing p t.a t.b + crossing p t.b t.c + crossing p t.c t.a

/-- The crossings of a triangle do not depend on the corner that it begins with. -/
theorem crossings_rotate : crossings ⟨b, c, a⟩ p = crossings ⟨a, b, c⟩ p := by
  show crossing p b c + crossing p c a + crossing p a b = _ + crossing p b c + crossing p c a
  ring

/-- Of an edge that goes up and one that goes down, exactly one is crossed if the point is on the
same side of both. -/
theorem crossings_of_signs {up down other : ℝ} (hup : up ≠ 0) (hdown : down ≠ 0)
    (hpos : 0 < up → 0 < down → 0 < other) (hneg : up < 0 → down < 0 → other < 0) :
    ((if 0 < up then 1 else 0) + if down < 0 then 1 else 0 : ZMod 2) =
      if (0 < up ∧ 0 < other ∧ 0 < down) ∨ up < 0 ∧ other < 0 ∧ down < 0 then 1 else 0 := by
  rcases hup.lt_or_gt with hu | hu <;> rcases hdown.lt_or_gt with hd | hd
  · rw [if_neg hu.not_gt, if_pos hd, if_pos (.inr ⟨hu, hneg hu hd, hd⟩), zero_add]
  · have hnot : ¬ ((0 < up ∧ 0 < other ∧ 0 < down) ∨ up < 0 ∧ other < 0 ∧ down < 0) := by
      rintro (⟨h, -, -⟩ | ⟨-, -, h⟩)
      · exact hu.not_gt h
      · exact hd.not_gt h
    rw [if_neg hu.not_gt, if_neg hd.not_gt, if_neg hnot, zero_add]
  · have hnot : ¬ ((0 < up ∧ 0 < other ∧ 0 < down) ∨ up < 0 ∧ other < 0 ∧ down < 0) := by
      rintro (⟨-, -, h⟩ | ⟨h, -, -⟩)
      · exact hd.not_gt h
      · exact hu.not_gt h
    rw [if_pos hu, if_pos hd, if_neg hnot]
    rfl
  · rw [if_pos hu, if_neg hd.not_gt, if_pos (.inl ⟨hu, hpos hu hd, hd⟩), add_zero]

/-- With one corner below, a triangle is crossed once from its inside and an even number of times
from elsewhere. -/
theorem crossings_of_low (ha : a.y ≤ p.y) (hb : p.y < b.y) (hc : p.y < c.y)
    (hoff : ¬ OnEdge ⟨a, b, c⟩ p) :
    crossings ⟨a, b, c⟩ p = if Inside ⟨a, b, c⟩ p then 1 else 0 := by
  have hab : turn a b p ≠ 0 := fun h => hoff (.inl (between_of_spans h ha hb))
  have hca : turn c a p ≠ 0 := fun h => hoff (.inr (.inr (between_swap
    (between_of_spans (by rw [turn_swap c a, h, neg_zero]) ha hc))))
  show crossing p a b + crossing p b c + crossing p c a = _
  rw [crossing_of_up ha hb, crossing_of_above hb hc, crossing_of_down hc ha, add_zero,
    crossings_of_signs hab hca (turn_pos_of_low ha hb hc) (turn_neg_of_low ha hb hc)]
  rfl

/-- With one corner above, a triangle is crossed once from its inside and an even number of times
from elsewhere. -/
theorem crossings_of_high (ha : a.y ≤ p.y) (hb : b.y ≤ p.y) (hc : p.y < c.y)
    (hoff : ¬ OnEdge ⟨a, b, c⟩ p) :
    crossings ⟨a, b, c⟩ p = if Inside ⟨a, b, c⟩ p then 1 else 0 := by
  have hbc : turn b c p ≠ 0 := fun h => hoff (.inr (.inl (between_of_spans h hb hc)))
  have hca : turn c a p ≠ 0 := fun h => hoff (.inr (.inr (between_swap
    (between_of_spans (by rw [turn_swap c a, h, neg_zero]) ha hc))))
  have hlevel : ¬ Between p a b := fun h => hoff (.inl h)
  show crossing p a b + crossing p b c + crossing p c a = _
  rw [crossing_of_below ha hb, crossing_of_up hb hc, crossing_of_down hc ha, zero_add,
    crossings_of_signs hbc hca (turn_pos_of_high ha hb hc hlevel)
      (turn_neg_of_high ha hb hc hlevel)]
  exact if_congr (by rw [Inside]; tauto) rfl rfl

/-- A point above which all corners are is not to the left of all edges. -/
theorem not_turn_pos_of_above (ha : p.y < a.y) (hb : p.y < b.y) (hc : p.y < c.y) :
    ¬ (0 < turn a b p ∧ 0 < turn b c p ∧ 0 < turn c a p) := by
  rintro ⟨hab, hbc, hca⟩
  have hbalance := turn_balance p a b c
  have ha' := mul_pos hbc (sub_pos.mpr ha)
  have hb' := mul_pos hca (sub_pos.mpr hb)
  have hc' := mul_pos hab (sub_pos.mpr hc)
  linarith

/-- Neither is a point above which no corner is. All corners would be level with it. -/
theorem not_turn_pos_of_below (ha : a.y ≤ p.y) (hb : b.y ≤ p.y) (hc : c.y ≤ p.y) :
    ¬ (0 < turn a b p ∧ 0 < turn b c p ∧ 0 < turn c a p) := by
  rintro ⟨hab, hbc, hca⟩
  have hbalance := turn_balance p a b c
  have ha' := mul_nonpos_of_nonneg_of_nonpos hbc.le (sub_nonpos.mpr ha)
  have hb' := mul_nonpos_of_nonneg_of_nonpos hca.le (sub_nonpos.mpr hb)
  have hc' := mul_nonpos_of_nonneg_of_nonpos hab.le (sub_nonpos.mpr hc)
  have hay : a.y - p.y = 0 :=
    (mul_eq_zero.mp (by linarith : turn b c p * (a.y - p.y) = 0)).resolve_left hbc.ne'
  have hby : b.y - p.y = 0 :=
    (mul_eq_zero.mp (by linarith : turn c a p * (b.y - p.y) = 0)).resolve_left hca.ne'
  rw [turn_eq_seen, hay, hby, mul_zero, zero_mul, sub_zero] at hab
  exact hab.false

/-- Inside of a triangle a point is to the left of all edges, whichever way they are walked. -/
theorem not_inside_of_not_turn_pos (h : ¬ (0 < turn a b p ∧ 0 < turn b c p ∧ 0 < turn c a p))
    (h' : ¬ (0 < turn a c p ∧ 0 < turn c b p ∧ 0 < turn b a p)) : ¬ Inside ⟨a, b, c⟩ p := by
  rintro (hleft | ⟨hab, hbc, hca⟩)
  · exact h hleft
  · refine h' ⟨?_, ?_, ?_⟩
    · rw [turn_swap c a]
      exact neg_pos.mpr hca
    · rw [turn_swap b c]
      exact neg_pos.mpr hbc
    · rw [turn_swap a b]
      exact neg_pos.mpr hab

/-- **A triangle** is crossed an odd number of times from inside of it. -/
theorem crossings_eq (t : Triangle) (hoff : ¬ t.OnEdge p) :
    t.crossings p = if t.Inside p then 1 else 0 := by
  obtain ⟨a, b, c⟩ := t
  have hoff' : ¬ OnEdge ⟨b, c, a⟩ p := fun h => hoff (onEdge_rotate.mp h)
  have hoff'' : ¬ OnEdge ⟨c, a, b⟩ p := fun h => hoff' (onEdge_rotate.mp h)
  have hrotate : crossings ⟨b, c, a⟩ p = (if Inside ⟨b, c, a⟩ p then 1 else 0) →
      crossings ⟨a, b, c⟩ p = if Inside ⟨a, b, c⟩ p then 1 else 0 := by
    rw [crossings_rotate, if_congr inside_rotate rfl rfl]
    exact id
  have hrotate' : crossings ⟨c, a, b⟩ p = (if Inside ⟨c, a, b⟩ p then 1 else 0) →
      crossings ⟨a, b, c⟩ p = if Inside ⟨a, b, c⟩ p then 1 else 0 := by
    rw [crossings_rotate, if_congr inside_rotate rfl rfl]
    exact hrotate
  rcases le_or_gt a.y p.y with ha | ha <;> rcases le_or_gt b.y p.y with hb | hb <;>
    rcases le_or_gt c.y p.y with hc | hc
  · rw [if_neg (not_inside_of_not_turn_pos (not_turn_pos_of_below ha hb hc)
      (not_turn_pos_of_below ha hc hb))]
    show crossing p a b + crossing p b c + crossing p c a = 0
    rw [crossing_of_below ha hb, crossing_of_below hb hc, crossing_of_below hc ha, add_zero,
      add_zero]
  · exact crossings_of_high ha hb hc hoff
  · exact hrotate' (crossings_of_high hc ha hb hoff'')
  · exact crossings_of_low ha hb hc hoff
  · exact hrotate (crossings_of_high hb hc ha hoff')
  · exact hrotate (crossings_of_low hb hc ha hoff')
  · exact hrotate' (crossings_of_low hc ha hb hoff'')
  · rw [if_neg (not_inside_of_not_turn_pos (not_turn_pos_of_above ha hb hc)
      (not_turn_pos_of_above ha hc hb))]
    show crossing p a b + crossing p b c + crossing p c a = 0
    rw [crossing_of_above ha hb, crossing_of_above hb hc, crossing_of_above hc ha, add_zero,
      add_zero]

end Triangle

end Photoplot
