import Mathlib.Data.List.Rotate
import Photoplot.Proofs.ConvexFans

/-!
# Retracing an Outline

The same polygon can be traced from any of its vertices, and in either direction. Another start
turns the list of turns around, and the other direction reverses it and changes the side of every
turn. Whether an outline turns to one side only is therefore a matter of the polygon.

Whether it is taken for convex is not, because the side is decided by the first turn. A first turn
that is straight counts as one to the right, while a straight turn anywhere else counts for nothing.
So a polygon that turns to the left is refused if it is traced from just before a flat corner, and
accepted from everywhere else. Polygons without flat corners, and those that have no other corners,
are taken for the same however they are traced.

Everything here is about the real numbers.

## Main definitions

* `Outline.Retraces`: an outline traces the polygon of another one.
* `Outline.OneSided`: an outline turns to one side only.
* `Outline.PartlyFlat`: a one-sided outline has flat corners and others.

## Main results

* `Outline.turns_rotate`, `Outline.turns_reverse`: the turns of an outline that is traced anew.
* `Outline.isConvex_iff`: what is taken for convex.
* `Outline.isConvex_eq_iff_partlyFlat`: when the answer does not depend on the tracing.
* `Outline.not_isConvex_flatSquare`: a polygon for which it does.
-/

namespace Photoplot.Outline

variable {vertices other : List (Point ℝ)}

/-- An outline **retraces** another one when it begins at any of its vertices and goes around in the
same direction or in the opposite one. -/
def Retraces (vertices other : List (Point ℝ)) : Prop :=
  other ~r vertices ∨ other ~r vertices.reverse

/-- An outline that turns to one side, if it turns at all. -/
def OneSided (vertices : List (Point ℝ)) : Prop :=
  (∀ t ∈ turns vertices, 0 ≤ t) ∨ ∀ t ∈ turns vertices, t ≤ 0

/-- An outline that turns to one side, at some of its vertices and not at others. -/
structure PartlyFlat (vertices : List (Point ℝ)) : Prop where
  oneSided : OneSided vertices
  flat : 0 ∈ turns vertices
  bent : ∃ t ∈ turns vertices, t ≠ 0

/-! ### The turns of a retraced outline -/

/-- The successors in a closed outline are the outline rotated by one. -/
theorem successors_eq_rotate {β : Type} (l : List β) : successors l = l.rotate 1 := by
  cases l with
  | nil => rfl
  | cons first rest => simp [successors]

/-- The turns of three walks that are in step. -/
theorem rotate_turns_zip {p q r : List (Point ℝ)} (hq : q.length = p.length)
    (hr : r.length = p.length) (k : ℕ) :
    ((p.zip (q.zip r)).map fun (p, q, r) => turn p q r).rotate k =
      ((p.rotate k).zip ((q.rotate k).zip (r.rotate k))).map fun (p, q, r) => turn p q r := by
  rw [← List.map_rotate, List.zip_eq_zipWith, List.zip_eq_zipWith,
    List.zipWith_rotate_distrib _ _ _ _ (by simp [hq, hr]),
    List.zipWith_rotate_distrib _ _ _ _ (by rw [hq, hr])]
  rfl

/-- The turns of an outline are taken at each vertex with the next two. -/
theorem turns_eq (vertices : List (Point ℝ)) :
    turns vertices = (vertices.zip ((vertices.rotate 1).zip (vertices.rotate 2))).map
      fun (p, q, r) => turn p q r := by
  rw [turns, successors_eq_rotate, successors_eq_rotate, List.rotate_rotate]

/-- An outline has one turn for each vertex. -/
theorem length_turns (vertices : List (Point ℝ)) : (turns vertices).length = vertices.length := by
  simp [turns_eq]

/-- **Another start** turns the list of turns around. -/
theorem turns_rotate (vertices : List (Point ℝ)) (k : ℕ) :
    turns (vertices.rotate k) = (turns vertices).rotate k := by
  rw [turns_eq, turns_eq, rotate_turns_zip (by simp) (by simp)]
  simp only [List.rotate_rotate, Nat.add_comm]

/-- Walked backwards, a turn changes its sign. -/
theorem turn_reverse (p q r : Point ℝ) : turn r q p = -turn p q r := by
  show (q.x - r.x) * (p.y - q.y) - (q.y - r.y) * (p.x - q.x) =
    -((q.x - p.x) * (r.y - q.y) - (q.y - p.y) * (r.x - q.x))
  ring

/-- To begin later and then go backwards is to begin earlier when going backwards. -/
theorem rotate_reverse_rotate {β : Type} (l : List β) (k : ℕ) :
    (l.rotate k).reverse.rotate k = l.reverse := by
  rcases l.eq_nil_or_concat' with rfl | ⟨_, _, hl⟩
  · simp
  have hpos : 0 < l.length := by simp [hl]
  have hlt : k % l.length < l.length := Nat.mod_lt k hpos
  have hdiv : k % l.length + l.length * (k / l.length) = k := Nat.mod_add_div k l.length
  have hsteps : l.length - k % l.length + k = l.reverse.length * (1 + k / l.length) := by
    rw [List.length_reverse, Nat.mul_add, Nat.mul_one]
    omega
  rw [List.reverse_rotate, List.rotate_rotate, hsteps, List.rotate_length_mul]

/-- **The other direction** reverses the turns and changes their sides. -/
theorem turns_reverse (vertices : List (Point ℝ)) :
    turns vertices.reverse = ((turns vertices).reverse.rotate 2).map fun t => -t := by
  have hsecond : (vertices.rotate 1).reverse.rotate 2 = vertices.reverse.rotate 1 := by
    rw [← rotate_reverse_rotate vertices 1, List.rotate_rotate]
  have hreverse : (turns vertices).reverse =
      (vertices.reverse.zip ((vertices.rotate 1).reverse.zip (vertices.rotate 2).reverse)).map
        fun (p, q, r) => turn p q r := by
    simp only [turns_eq, List.zip_eq_zipWith, ← List.map_reverse]
    rw [List.reverse_zipWith (by simp), List.reverse_zipWith (by simp)]
  rw [hreverse, rotate_turns_zip (by simp) (by simp), hsecond, rotate_reverse_rotate, turns_eq]
  refine List.ext_getElem (by simp) fun k _ _ => ?_
  simp only [List.getElem_map, List.getElem_zip]
  exact turn_reverse _ _ _

/-! ### Polygons -/

/-- The other outline may be started anywhere. -/
theorem Retraces.rotate (h : Retraces vertices other) (k : ℕ) :
    Retraces vertices (other.rotate k) :=
  h.imp (List.IsRotated.forall other k).trans (List.IsRotated.forall other k).trans

/-- Outlines that start elsewhere have the same turns in another order. -/
theorem turns_perm_of_isRotated (h : other ~r vertices) : (turns other).Perm (turns vertices) := by
  obtain ⟨k, rfl⟩ := h.symm
  rw [turns_rotate]
  exact List.rotate_perm _ _

/-- The turns of a retraced outline are the same ones, or are to the other side. -/
theorem turns_perm_of_retraces (h : Retraces vertices other) :
    (turns other).Perm (turns vertices) ∨
      (turns other).Perm ((turns vertices).map fun t => -t) := by
  refine h.imp turns_perm_of_isRotated fun h => (turns_perm_of_isRotated h).trans ?_
  rw [turns_reverse]
  exact ((List.rotate_perm _ _).trans (List.reverse_perm _)).map _

/-- **Turning to one side** is a matter of the polygon. -/
theorem oneSided_iff_of_retraces (h : Retraces vertices other) :
    OneSided other ↔ OneSided vertices := by
  rcases turns_perm_of_retraces h with hperm | hperm
  · simp only [OneSided, hperm.mem_iff]
  · simp only [OneSided, hperm.mem_iff, List.forall_mem_map, Left.nonneg_neg_iff,
      Left.neg_nonpos_iff]
    exact or_comm

/-- So is being flat at some of the corners only. -/
theorem partlyFlat_iff_of_retraces (h : Retraces vertices other) :
    PartlyFlat other ↔ PartlyFlat vertices := by
  have hflat : 0 ∈ turns other ↔ 0 ∈ turns vertices := by
    rcases turns_perm_of_retraces h with hperm | hperm
    · exact hperm.mem_iff
    · simp [hperm.mem_iff]
  have hbent : (∃ t ∈ turns other, t ≠ 0) ↔ ∃ t ∈ turns vertices, t ≠ 0 := by
    rcases turns_perm_of_retraces h with hperm | hperm
    · simp only [hperm.mem_iff]
    · simp only [hperm.mem_iff, List.mem_map, exists_exists_and_eq_and, ne_eq, neg_eq_zero]
  exact ⟨fun ⟨hside, hzero, hturn⟩ =>
      ⟨(oneSided_iff_of_retraces h).mp hside, hflat.mp hzero, hbent.mp hturn⟩,
    fun ⟨hside, hzero, hturn⟩ =>
      ⟨(oneSided_iff_of_retraces h).mpr hside, hflat.mpr hzero, hbent.mpr hturn⟩⟩

/-! ### Convexity -/

/-- An outline of fewer than three vertices has only straight turns. -/
theorem eq_zero_of_mem_turns (h : vertices.length < 3) {t : ℝ} (ht : t ∈ turns vertices) :
    t = 0 := by
  have hback (p q : Point ℝ) : turn p q p = 0 := by
    show (q.x - p.x) * (p.y - q.y) - (q.y - p.y) * (p.x - q.x) = 0
    ring
  rcases vertices with _ | ⟨p, _ | ⟨q, _ | ⟨r, rest⟩⟩⟩
  · cases ht
  · have ht : t = turn p p p := by simpa [turns, successors] using ht
    rw [ht, hback]
  · have ht : t = turn p q p ∨ t = turn q p q := by simpa [turns, successors] using ht
    rcases ht with rfl | rfl <;> exact hback _ _
  · rw [List.length_cons, List.length_cons, List.length_cons] at h
    omega

/-- **What is taken for convex:** outlines that never turn to the left, and those that never turn to
the right and do not begin at a straight turn. -/
theorem isConvex_iff : isConvex vertices = true ↔ (∀ t ∈ turns vertices, t ≤ 0) ∨
    (∀ t ∈ turns vertices, 0 ≤ t) ∧ (turns vertices).head? ≠ some 0 := by
  by_cases hlength : vertices.length < 3
  · rw [isConvex, if_pos hlength]
    exact iff_of_true rfl (.inl fun t ht => (eq_zero_of_mem_turns hlength ht).le)
  cases hturns : turns vertices with
  | nil =>
      rw [← length_turns, hturns] at hlength
      exact absurd (by simp) hlength
  | cons first rest =>
      rw [isConvex_iff_of_turns_eq (not_lt.mp hlength) hturns, List.forall_mem_cons,
        List.forall_mem_cons, List.head?_cons, ne_eq, Option.some.injEq]
      constructor
      · rintro (⟨hfirst, hrest⟩ | hright)
        · exact .inr ⟨⟨hfirst.le, hrest⟩, hfirst.ne'⟩
        · exact .inl hright
      · rintro (hright | ⟨⟨hnonneg, hrest⟩, hfirst⟩)
        · exact .inr hright
        · exact .inl ⟨lt_of_le_of_ne hnonneg (Ne.symm hfirst), hrest⟩

/-- Without flat corners, or with nothing else, the outlines that are taken for convex are those
that turn to one side. -/
theorem isConvex_iff_oneSided (h : ¬ PartlyFlat vertices) :
    isConvex vertices = true ↔ OneSided vertices := by
  rw [isConvex_iff]
  constructor
  · rintro (hright | ⟨hleft, -⟩)
    · exact .inr hright
    · exact .inl hleft
  · rintro (hleft | hright)
    · by_cases hstart : (turns vertices).head? = some 0
      · -- all turns are straight, or else the outline would be partly flat
        refine .inl fun t ht => le_of_eq ?_
        by_contra hne
        exact h ⟨.inl hleft, List.mem_of_mem_head? hstart, t, ht, hne⟩
      · exact .inr ⟨hleft, hstart⟩
    · exact .inl hright

/-- Every turn of an outline is the first one for some tracing in the same direction. -/
theorem exists_rotate_of_mem_turns {t : ℝ} (ht : t ∈ turns vertices) :
    ∃ k, (turns (vertices.rotate k)).head? = some t := by
  obtain ⟨k, hk, rfl⟩ := List.getElem_of_mem ht
  refine ⟨k, ?_⟩
  rw [turns_rotate, List.head?_rotate hk, List.getElem?_eq_getElem hk]

/-- A polygon that is partly flat is refused when it is traced to the left from just before a flat
corner, and accepted when it is traced from just before another one. -/
theorem exists_retraces_of_partlyFlat (h : PartlyFlat vertices) :
    (∃ other, Retraces vertices other ∧ isConvex other = false) ∧
      ∃ other, Retraces vertices other ∧ isConvex other = true := by
  obtain ⟨left, hleft, hnonneg⟩ : ∃ left, Retraces vertices left ∧ ∀ t ∈ turns left, 0 ≤ t := by
    rcases h.oneSided with hleft | hright
    · exact ⟨vertices, .inl (.refl _), hleft⟩
    · refine ⟨vertices.reverse, .inr (.refl _), fun t ht => ?_⟩
      rw [turns_reverse, List.mem_map] at ht
      obtain ⟨s, hs, rfl⟩ := ht
      rw [List.mem_rotate, List.mem_reverse] at hs
      exact neg_nonneg.mpr (hright s hs)
  obtain ⟨-, hflat, bend, hbend, hne⟩ := (partlyFlat_iff_of_retraces hleft).mpr h
  have hmem (k : ℕ) (t : ℝ) : t ∈ turns (left.rotate k) ↔ t ∈ turns left := by
    rw [turns_rotate, List.mem_rotate]
  obtain ⟨k, hk⟩ := exists_rotate_of_mem_turns hflat
  obtain ⟨j, hj⟩ := exists_rotate_of_mem_turns hbend
  refine ⟨⟨left.rotate k, hleft.rotate k, ?_⟩, left.rotate j, hleft.rotate j, ?_⟩
  · rw [Bool.eq_false_iff, ne_eq, isConvex_iff, hk]
    rintro (hright | ⟨-, hstart⟩)
    · exact hne (le_antisymm (hright bend ((hmem k bend).mpr hbend)) (hnonneg bend hbend))
    · exact hstart rfl
  · rw [isConvex_iff, hj]
    refine .inr ⟨fun t ht => hnonneg t ((hmem j t).mp ht), fun hstart => ?_⟩
    exact hne (Option.some.inj hstart)

/-- **When the answer depends on the tracing.** An outline is taken for convex if it never turns to
the left, or if it never turns to the right and does not begin at a straight turn. So all outlines
of a polygon are taken for the same exactly if it is not partly flat. -/
theorem isConvex_eq_iff_partlyFlat (vertices : List (Point ℝ)) :
    (isConvex vertices = true ↔ (∀ t ∈ turns vertices, t ≤ 0) ∨
        (∀ t ∈ turns vertices, 0 ≤ t) ∧ (turns vertices).head? ≠ some 0) ∧
      ((∀ other, Retraces vertices other → isConvex other = isConvex vertices) ↔
        ¬ PartlyFlat vertices) := by
  refine ⟨isConvex_iff, fun hsame hpartly => ?_, fun hpartly other hother => ?_⟩
  · obtain ⟨⟨refused, hrefused, hfalse⟩, accepted, haccepted, htrue⟩ :=
      exists_retraces_of_partlyFlat hpartly
    rw [hsame _ hrefused] at hfalse
    rw [hsame _ haccepted, hfalse] at htrue
    cases htrue
  · have hpartly' : ¬ PartlyFlat other := mt (partlyFlat_iff_of_retraces hother).mp hpartly
    rw [Bool.eq_iff_iff, isConvex_iff_oneSided hpartly, isConvex_iff_oneSided hpartly']
    exact oneSided_iff_of_retraces hother

/-! ### A square with a flat corner -/

/-- The corners of a square to the left, and a vertex in the middle of its first edge. -/
noncomputable def flatSquare : List (Point ℝ) := [⟨0, 0⟩, ⟨1, 0⟩, ⟨2, 0⟩, ⟨2, 2⟩, ⟨0, 2⟩]

/-- The turns of the square whose first corner is flat. -/
theorem turns_flatSquare : turns flatSquare = [0, 2, 4, 4, 2] := by
  simp [turns, successors, flatSquare, turn_eq_seen]
  norm_num

/-- Traced from before its flat corner the square is refused. It is accepted from its flat corner
on, and also in the opposite direction. -/
theorem not_isConvex_flatSquare : isConvex flatSquare = false ∧
    isConvex (flatSquare.rotate 1) = true ∧ isConvex flatSquare.reverse = true := by
  refine ⟨?_, ?_, ?_⟩
  · rw [Bool.eq_false_iff, ne_eq, isConvex_iff, turns_flatSquare]
    simp
  · rw [isConvex_iff, turns_rotate, turns_flatSquare]
    simp
  · rw [isConvex_iff, turns_reverse, turns_flatSquare]
    simp

end Photoplot.Outline
