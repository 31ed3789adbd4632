import Mathlib.Data.List.FinRange
import Mathlib.Data.List.Sort
import Mathlib.Order.Bounds.Basic
import Photoplot.Geometry.Outline
import Photoplot.Scalar.Double

/-!
# Vertices That Are Kept

Cleaning an outline drops vertices, and so the question is whether it drops one that it should keep.
The answer is given by positions, because a vertex may occur more than once: which positions are
kept, and by what every other vertex is represented in the outline that is left.

The pass over an outline remembers one position only, that of the vertex kept last. This is the
**reference** of the vertices after it. A reference is never dropped later on: the only vertex that
is dropped without being near its reference is the last one, and no vertex comes after that.

## Order convention

As in the pass, the vertex that is kept comes first when two vertices are compared.

## Main definitions

* `Outline.RepeatsKept`, `Outline.RepeatsFirst`: the two reasons to drop a vertex.
* `Outline.Keeps`: the positions that are kept, as the solution of a fixed point equation.
* `Outline.reference`: the position that the pass remembers.

## Main results

* `Outline.Keeps.unique`: no other positions can be kept.
* `Outline.keepDistinct_drop`: the rest of the pass, by induction from the end of the outline.
* `Outline.isGreatest_reference`: the reference is the nearest position before that is kept.
* `Outline.withoutRepeats_keeps`: what cleaning keeps.
-/

namespace Photoplot.Outline

variable {α : Type} [Scalar α] {tolerance : α} {vertices : List (Point α)}

/-! ### Positions -/

/-- The vertex at a position repeats the nearest one before it that is kept. -/
def RepeatsKept (tolerance : α) (vertices : List (Point α)) (kept : List (Fin vertices.length))
    (i : Fin vertices.length) : Prop :=
  ∃ j, IsGreatest {j | j ∈ kept ∧ j < i} j ∧ vertices[j].near tolerance vertices[i]

/-- The vertex at the last position repeats the first one. -/
def RepeatsFirst (tolerance : α) (vertices : List (Point α)) (i : Fin vertices.length) : Prop :=
  0 < i.val ∧ i.val + 1 = vertices.length ∧
    ∃ first ∈ vertices.head?, first.near tolerance vertices[i]

/-- The positions that are **kept** of an outline, in order: those of the vertices that do not
repeat another one. -/
structure Keeps (tolerance : α) (vertices : List (Point α)) (kept : List (Fin vertices.length)) :
    Prop where
  increasing : kept.SortedLT
  mem_iff : ∀ i, i ∈ kept ↔
    ¬ (RepeatsKept tolerance vertices kept i ∨ RepeatsFirst tolerance vertices i)

/-- Whether a vertex is kept depends on what is kept before it. -/
theorem repeatsKept_congr {kept kept' : List (Fin vertices.length)} {i : Fin vertices.length}
    (h : ∀ j < i, j ∈ kept ↔ j ∈ kept') :
    RepeatsKept tolerance vertices kept i ↔ RepeatsKept tolerance vertices kept' i := by
  have hsame : {j | j ∈ kept ∧ j < i} = {j | j ∈ kept' ∧ j < i} :=
    Set.ext fun j => and_congr_left fun hj => h j hj
  rw [RepeatsKept, RepeatsKept, hsame]

/-- **Only these positions** can be kept, by induction on the positions. -/
theorem Keeps.unique {kept kept' : List (Fin vertices.length)}
    (h : Keeps tolerance vertices kept) (h' : Keeps tolerance vertices kept') : kept = kept' := by
  refine h.increasing.eq_of_mem_iff h'.increasing fun i => ?_
  induction i using WellFoundedLT.induction with
  | ind i ih => rw [h.mem_iff, h'.mem_iff, repeatsKept_congr fun j hj => ih j hj]

/-! ### The position that the pass remembers -/

/-- Whether the vertex at one position repeats the vertex at another one. -/
def nearAt (tolerance : α) (vertices : List (Point α)) (i j : ℕ) : Bool :=
  vertices[i]?.any fun p => vertices[j]?.any fun q => p.near tolerance q

/-- The **reference** of a position: where the pass has kept a vertex last when it comes there. -/
def reference (tolerance : α) (vertices : List (Point α)) : ℕ → ℕ
  | 0 => 0
  | i + 1 =>
    if nearAt tolerance vertices (reference tolerance vertices i) i then
      reference tolerance vertices i
    else i

/-- Whether the vertex at a position is kept. -/
def isKept (tolerance : α) (vertices : List (Point α)) (i : ℕ) : Bool :=
  if i = 0 then true
  else !(nearAt tolerance vertices (reference tolerance vertices i) i ||
    (decide (i + 1 = vertices.length) && nearAt tolerance vertices 0 i))

variable (tolerance) in
/-- Vertices at two positions are near when the vertices there are. -/
theorem nearAt_eq (i j : Fin vertices.length) :
    nearAt tolerance vertices i j = vertices[i].near tolerance vertices[j] := by
  simp [nearAt]

/-- What a vertex is compared with comes before it. -/
theorem reference_lt {i : ℕ} (hi : 0 < i) : reference tolerance vertices i < i := by
  induction i with
  | zero => exact absurd hi (lt_irrefl 0)
  | succ i ih =>
      rw [reference]
      split
      · rcases i.eq_zero_or_pos with rfl | hpos
        · exact Nat.zero_lt_one
        · exact (ih hpos).trans i.lt_succ_self
      · exact i.lt_succ_self

/-- The second vertex is compared with the first one. -/
theorem reference_one : reference tolerance vertices 1 = 0 :=
  Nat.lt_one_iff.mp (reference_lt Nat.zero_lt_one)

variable (tolerance) in
/-- Before the last position the pass alone decides. -/
theorem isKept_eq_of_lt {i : ℕ} (hi : 0 < i) (hlast : i + 1 < vertices.length) :
    isKept tolerance vertices i =
      !nearAt tolerance vertices (reference tolerance vertices i) i := by
  simp [isKept, hi.ne', hlast.ne]

variable (tolerance) in
/-- The reference is kept, and nothing between it and the position is, by induction on the
position. The closing test does not interfere: it is made at the end only. -/
theorem isKept_reference {i : ℕ} (hi : 0 < i) (hlength : i < vertices.length) :
    isKept tolerance vertices (reference tolerance vertices i) = true ∧
      ∀ k, reference tolerance vertices i < k → k < i → isKept tolerance vertices k = false := by
  induction i with
  | zero => exact absurd hi (lt_irrefl 0)
  | succ i ih =>
      rcases i.eq_zero_or_pos with rfl | hpos
      · rw [Nat.zero_add, reference_one]
        exact ⟨rfl, fun k hk hk' => absurd hk' (Nat.not_lt.mpr hk)⟩
      obtain ⟨hkept, hbetween⟩ := ih hpos (Nat.lt_of_succ_lt hlength)
      have hdecide := isKept_eq_of_lt tolerance hpos hlength
      rw [reference]
      cases hnear : nearAt tolerance vertices (reference tolerance vertices i) i with
      | true =>
          rw [if_pos rfl]
          refine ⟨hkept, fun k hk hk' => ?_⟩
          rcases (Nat.lt_succ_iff.mp hk').eq_or_lt with rfl | hk'
          · rw [hdecide, hnear, Bool.not_true]
          · exact hbetween k hk hk'
      | false =>
          rw [if_neg Bool.false_ne_true]
          refine ⟨by rw [hdecide, hnear, Bool.not_false], fun k hk hk' => ?_⟩
          exact absurd hk' (Nat.not_lt.mpr hk)

/-! ### The pass by positions -/

/-- The positions at which the pass keeps a vertex. -/
def keptPositions (tolerance : α) (vertices : List (Point α)) : List (Fin vertices.length) :=
  (List.finRange vertices.length).filter fun i => isKept tolerance vertices i

/-- A position is kept or not by its own test. -/
theorem mem_keptPositions {i : Fin vertices.length} :
    i ∈ keptPositions tolerance vertices ↔ isKept tolerance vertices i := by
  simp [keptPositions]

variable (tolerance) in
/-- **The reference** is the nearest position before that is kept. -/
theorem isGreatest_reference {i : Fin vertices.length} (hi : 0 < i.val) :
    IsGreatest {j | j ∈ keptPositions tolerance vertices ∧ j < i}
      ⟨reference tolerance vertices i, (reference_lt hi).trans i.isLt⟩ := by
  obtain ⟨hkept, hbetween⟩ := isKept_reference tolerance hi i.isLt
  refine ⟨⟨mem_keptPositions.mpr hkept, reference_lt hi⟩, ?_⟩
  rintro j ⟨hj, hji⟩
  by_contra hafter
  have hdropped := hbetween j (not_le.mp hafter) hji
  rw [mem_keptPositions.mp hj] at hdropped
  cases hdropped

/-- Among the kept positions the last one before a vertex is what the vertex is compared with. -/
theorem repeatsKept_keptPositions_iff {i : Fin vertices.length} (hi : 0 < i.val) :
    RepeatsKept tolerance vertices (keptPositions tolerance vertices) i ↔
      nearAt tolerance vertices (reference tolerance vertices i) i := by
  have hgreatest := isGreatest_reference tolerance hi
  have hnear := nearAt_eq tolerance
    ⟨reference tolerance vertices i, (reference_lt hi).trans i.isLt⟩ i
  constructor
  · rintro ⟨j, hj, hrepeats⟩
    rw [hj.unique hgreatest] at hrepeats
    exact hnear ▸ hrepeats
  · exact fun h => ⟨_, hgreatest, hnear ▸ h⟩

/-- Only the last vertex can be dropped for the sake of the first one. -/
theorem repeatsFirst_iff {i : Fin vertices.length} (hi : 0 < i.val) :
    RepeatsFirst tolerance vertices i ↔
      i.val + 1 = vertices.length ∧ nearAt tolerance vertices 0 i := by
  have hnear : (∃ first ∈ vertices.head?, first.near tolerance vertices[i]) ↔
      nearAt tolerance vertices 0 i := by
    simp [nearAt, List.head?_eq_getElem?, Option.any_eq_true]
  rw [RepeatsFirst, hnear]
  exact and_iff_right hi

/-- The positions of the pass are those that are kept. -/
theorem keeps_keptPositions (tolerance : α) (vertices : List (Point α)) :
    Keeps tolerance vertices (keptPositions tolerance vertices) where
  increasing := ((List.pairwise_lt_finRange _).filter _).sortedLT
  mem_iff i := by
    rw [mem_keptPositions]
    rcases i.val.eq_zero_or_pos with hzero | hpos
    · have hkept : isKept tolerance vertices i = true := by simp [isKept, hzero]
      refine iff_of_true hkept ?_
      rintro (⟨j, hj, -⟩ | ⟨hpos, -⟩)
      · exact absurd hj.1.2 (by simp [Fin.lt_def, hzero])
      · exact hpos.ne' hzero
    · rw [repeatsKept_keptPositions_iff hpos, repeatsFirst_iff hpos]
      simp [isKept, hpos.ne', imp_iff_not_or]

/-- A step of the pass. The last vertex is also compared with the first one. -/
theorem keepDistinct_cons (first kept p : Point α) (rest : List (Point α)) :
    keepDistinct tolerance first kept (p :: rest) =
      if kept.near tolerance p || (rest.isEmpty && first.near tolerance p) then
        keepDistinct tolerance first kept rest
      else p :: keepDistinct tolerance first p rest := by
  cases rest with
  | nil => simp [keepDistinct]
  | cons q rest => simp [keepDistinct]

omit [Scalar α] in
/-- Positions from one on are that one and those after it. -/
theorem drop_finRange {n i : ℕ} (hi : i < n) :
    (List.finRange n).drop i = ⟨i, hi⟩ :: (List.finRange n).drop (i + 1) := by
  rw [List.drop_eq_getElem_cons (by simpa using hi), List.getElem_finRange]
  rfl

/-- **The rest of the pass**, from a position on. The induction is from the end of the outline. -/
theorem keepDistinct_drop {first kept : Point α} (hfirst : vertices[0]? = some first) {i : ℕ}
    (hi : 0 < i) (hkept : vertices[reference tolerance vertices i]? = some kept) :
    keepDistinct tolerance first kept (vertices.drop i) =
      (((List.finRange vertices.length).drop i).filter
        fun j : Fin vertices.length => isKept tolerance vertices j).map vertices.get := by
  induction hrest : vertices.length - i generalizing i kept with
  | zero =>
      have hlength : vertices.length ≤ i := Nat.sub_eq_zero_iff_le.mp hrest
      rw [List.drop_of_length_le hlength, List.drop_of_length_le (by simpa using hlength)]
      rfl
  | succ remaining ih =>
      have hlength : i < vertices.length := by omega
      have hnear : nearAt tolerance vertices (reference tolerance vertices i) i =
          kept.near tolerance vertices[i] := by simp [nearAt, hkept, hlength]
      have hclosing : nearAt tolerance vertices 0 i = first.near tolerance vertices[i] := by
        simp [nearAt, hfirst, hlength]
      have hlast : (vertices.drop (i + 1)).isEmpty = decide (i + 1 = vertices.length) := by
        rw [Bool.eq_iff_iff, List.isEmpty_iff, List.drop_eq_nil_iff, decide_eq_true_iff]
        omega
      rw [List.drop_eq_getElem_cons hlength, keepDistinct_cons, hlast, drop_finRange hlength,
        List.filter_cons, isKept, if_neg hi.ne', hnear, hclosing]
      cases hrepeats : kept.near tolerance vertices[i] with
      | true =>
          have hreference : reference tolerance vertices (i + 1) =
              reference tolerance vertices i := by
            rw [reference, hnear, if_pos hrepeats]
          exact ih i.succ_pos (hreference ▸ hkept) (by omega)
      | false =>
          have hreference : reference tolerance vertices (i + 1) = i := by
            rw [reference, hnear, if_neg (Bool.eq_false_iff.mp hrepeats)]
          rw [Bool.false_or]
          cases hcloses : decide (i + 1 = vertices.length) && first.near tolerance vertices[i] with
          | true =>
              -- nothing comes after the last vertex
              have hend : vertices.length ≤ i + 1 := by
                rw [Bool.and_eq_true, decide_eq_true_iff] at hcloses
                exact hcloses.1.ge
              rw [List.drop_of_length_le hend, List.drop_of_length_le (by simpa using hend)]
              rfl
          | false =>
              have hkept' : vertices[reference tolerance vertices (i + 1)]? = some vertices[i] := by
                rw [hreference, List.getElem?_eq_getElem hlength]
              exact congrArg (vertices[i] :: ·) (ih i.succ_pos hkept' (by omega))

/-- **Cleaning** keeps the vertices at the kept positions, if there are three at least. -/
theorem withoutRepeats_eq (tolerance : α) (vertices : List (Point α)) :
    withoutRepeats tolerance vertices =
      if (keptPositions tolerance vertices).length < 3 then vertices
      else (keptPositions tolerance vertices).map vertices.get := by
  rcases vertices with _ | ⟨first, rest⟩
  · rfl
  · have hkept : first :: keepDistinct tolerance first first rest =
        (keptPositions tolerance (first :: rest)).map (first :: rest).get := by
      have hstart : (first :: rest)[reference tolerance (first :: rest) 1]? = some first := by
        rw [reference_one]
        rfl
      have hrest := keepDistinct_drop rfl Nat.zero_lt_one hstart
      have hpositions : List.finRange (first :: rest).length =
          ⟨0, Nat.succ_pos _⟩ :: (List.finRange (first :: rest).length).drop 1 :=
        drop_finRange (Nat.succ_pos _)
      rw [keptPositions, hpositions]
      exact congrArg (first :: ·) hrest
    rw [withoutRepeats, hkept, List.length_map]

/-- The first vertex is always kept. -/
theorem head?_withoutRepeats (tolerance : α) (vertices : List (Point α)) :
    (withoutRepeats tolerance vertices).head? = vertices.head? := by
  rcases vertices with _ | ⟨first, rest⟩
  · rfl
  · rw [withoutRepeats]
    split <;> rfl

/-- **What cleaning keeps.** The positions that are kept are determined: at every other one there is
a vertex that repeats the nearest one kept before it, or the last vertex, which repeats the first.
If there are three of them at least, the vertices at these positions are left, in order, and
else nothing is dropped. So the outline that is left begins where it began, and it has three
vertices at least if it was changed. -/
theorem withoutRepeats_keeps (tolerance : α) (vertices : List (Point α)) :
    ∃ kept, Keeps tolerance vertices kept ∧
      (∀ other, Keeps tolerance vertices other → other = kept) ∧
      withoutRepeats tolerance vertices =
        (if kept.length < 3 then vertices else kept.map vertices.get) ∧
      (withoutRepeats tolerance vertices).Sublist vertices ∧
      (withoutRepeats tolerance vertices).head? = vertices.head? ∧
      (withoutRepeats tolerance vertices = vertices ∨
        3 ≤ (withoutRepeats tolerance vertices).length) := by
  have hkeeps := keeps_keptPositions tolerance vertices
  refine ⟨_, hkeeps, fun other hother => hother.unique hkeeps, withoutRepeats_eq tolerance vertices,
    ?_, head?_withoutRepeats tolerance vertices, ?_⟩
  · rw [withoutRepeats_eq]
    split
    · exact List.Sublist.refl _
    · exact List.map_getElem_sublist hkeeps.increasing.pairwise
  · rw [withoutRepeats_eq]
    split
    · exact .inl rfl
    · rw [List.length_map]
      exact .inr (not_lt.mp ‹_›)

/-- Each of these vertices is near the next one, and every other one is kept. -/
example : (keptPositions (1 : Float)
    [⟨0, 0⟩, ⟨0.6, 0⟩, ⟨1.2, 0⟩, ⟨1.8, 0⟩, ⟨2.4, 0⟩]).map Fin.val = [0, 2, 4] := by
  decide +kernel

end Photoplot.Outline
