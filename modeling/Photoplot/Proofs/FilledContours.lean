import Mathlib.Data.Real.Basic
import Photoplot.Proofs.FailedCommands
import Photoplot.Proofs.Retracing

/-!
# Filled Contours

A region is drawn by pushing edges onto a contour and closing it. What is then drawn is a polygon of
positive orientation, or nothing at all if the contour encloses no area. Whether it does and how it
is oriented are decided by the same shoelace sum, which changes its sign with the direction in which
a contour is traced. So a contour that is not degenerate always has a positive sum in one of its two
directions.

## Conventions

* **Contours are pushed.** A contour is what comes of pushing edges onto the empty one
  (`Contour.ofEdges`). Its start is known exactly when it has edges.
* **Cleaned contours.** The degenerate contours are found, and the others drawn, after vertices
  that repeat the one before have been removed (`Contour.cleaned`).
* Closing a contour is the same over all scalars. Orientations are about the real numbers, because
  a sum of rounded products need not change its sign when it is added up in another order.

## Main definitions

* `Contour.ofEdges`, `Contour.drawn`, `Contour.cleaned`: edges, and the vertices they draw.
* `Contour.filled`: the polygon of an outline, unless it is degenerate.

## Main results

* `Contour.start_ofEdges`: when the start of a contour is known.
* `Composer.extendContour_ofEdges`, `Composer.flushContour_ofEdges`: what pushing and flushing do.
* `Composer.flushContour_again`: nothing is drawn twice.
* `Outline.signedArea_reverse`: reversing an outline negates its signed area.
* `Composer.flushContour_oriented`: everything drawn has positive orientation.
-/

namespace Photoplot

variable {α : Type}

/-! ### Contours by their edges -/

namespace Contour

/-- The contour onto which edges were pushed one after another, each with its start. -/
def ofEdges (edges : List (Point α × Edge α)) : Contour α :=
  edges.foldl (fun contour edge => contour.push edge.1 edge.2) empty

/-- The last edge is pushed after the others. -/
theorem ofEdges_concat (edges : List (Point α × Edge α)) (start : Point α) (edge : Edge α) :
    ofEdges (edges ++ [(start, edge)]) = (ofEdges edges).push start edge := by
  rw [ofEdges, List.foldl_concat]
  rfl

/-- A contour has the edges that were pushed, in order. -/
theorem edges_ofEdges (edges : List (Point α × Edge α)) :
    (ofEdges edges).edges.toList = edges.map Prod.snd := by
  induction edges using List.reverseRecOn with
  | nil => rfl
  | append_singleton edges edge ih =>
      rw [ofEdges_concat, push, Array.toList_push, ih, List.map_append, List.map_singleton]

/-- A contour has no edges when none was pushed. -/
theorem isEmpty_edges_ofEdges (edges : List (Point α × Edge α)) :
    (ofEdges edges).edges.isEmpty = edges.isEmpty := by
  rw [← Array.isEmpty_toList, edges_ofEdges, List.isEmpty_map]

/-- The start of a contour is the one of its first edge, and is known **exactly when** there are
edges. -/
theorem start_ofEdges (edges : List (Point α × Edge α)) :
    (ofEdges edges).start = edges.head?.map Prod.fst := by
  induction edges using List.reverseRecOn with
  | nil => rfl
  | append_singleton edges edge ih =>
      rw [ofEdges_concat, start_push, isEmpty_edges_ofEdges]
      cases edges with
      | nil => rfl
      | cons first rest => exact ih

variable [Scalar α]

/-- The vertices that edges draw: the start of the first one, and what each of them adds. -/
def drawn (edges : List (Point α × Edge α)) : List (Point α) :=
  (edges.head?.map Prod.fst).toList ++ edges.flatMap (edgeVertices ·.2)

/-- The vertices without those that repeat the one before. -/
def cleaned (edges : List (Point α × Edge α)) : List (Point α) :=
  Outline.withoutRepeats (1e-6 : α) (drawn edges)

/-- What is drawn for an outline: nothing if it is degenerate. -/
def filled (outline : List (Point α)) (polarity : Polarity) : List (Shape α) :=
  if isDegenerate outline then [] else [fill outline polarity]

/-- The outline in the direction in which it is filled. -/
def oriented (outline : List (Point α)) : List (Point α) :=
  if 0 < Outline.signedArea outline then outline else outline.reverse

/-- A filled outline is a polygon in the direction in which it is filled. -/
theorem fill_eq (outline : List (Point α)) (polarity : Polarity) :
    fill outline polarity = ⟨.polygon (oriented outline), polarity⟩ := rfl

/-- An outline is filled as it is or in the other direction. -/
theorem oriented_eq_or (outline : List (Point α)) :
    oriented outline = outline ∨ oriented outline = outline.reverse := by
  rw [oriented]
  split
  · exact .inl rfl
  · exact .inr rfl

/-- The direction does not change how many vertices there are. -/
theorem length_oriented (outline : List (Point α)) :
    (oriented outline).length = outline.length := by
  rcases oriented_eq_or outline with h | h <;> simp [h]

/-- Closing a contour leaves none of its edges, since without a start there are none. -/
theorem state_close (c : Contour α) : (close c).state = empty := by
  rw [close, Action.get_bind]
  cases hstart : c.start with
  | none =>
      show c = empty
      have hedges := c.edges_eq_empty hstart
      cases c
      cases hstart
      cases hedges
      rfl
  | some start =>
      dsimp only
      rw [(Action.bind_eq_of_ok (a := Action.modify _) rfl).2]
      split
      · rfl
      split <;> rfl

/-- **Closing** a contour gives its cleaned vertices, unless they are degenerate. -/
theorem close_ofEdges (edges : List (Point α × Edge α)) :
    (close (ofEdges edges)).result =
      .ok (if isDegenerate (cleaned edges) then none else some (cleaned edges)) := by
  rw [close, Action.get_bind, start_ofEdges]
  cases edges with
  | nil => rfl
  | cons first rest =>
      have hvertices :
          vertices first.1 (ofEdges (first :: rest)).edges = drawn (first :: rest) := by
        rw [vertices, edges_ofEdges, List.flatMap_map]
        rfl
      dsimp only [List.head?_cons, Option.map_some]
      rw [(Action.bind_eq_of_ok (a := Action.modify _) rfl).1, isEmpty_edges_ofEdges, hvertices,
        ← cleaned]
      cases isDegenerate (cleaned (first :: rest)) <;> rfl

end Contour

/-! ### Flushing -/

/-- Edges are pushed onto the open contour. -/
theorem Composer.extendContour_ofEdges {c : Composer α} {edges : List (Point α × Edge α)}
    (h : c.contour = some (.ofEdges edges)) (start : Point α) (added : List (Edge α)) :
    (extendContour start added c).result = .ok () ∧
      (extendContour start added c).state =
        { c with contour := some (.ofEdges (edges ++ added.map (start, ·))) } := by
  have hopen : c.contour.isNone = false := by rw [h]; rfl
  rw [extendContour, Action.gets_bind, hopen, if_neg Bool.false_ne_true]
  refine ⟨rfl, ?_⟩
  show { c with contour := c.contour.map _ } = _
  rw [h, Contour.ofEdges, Contour.ofEdges, List.foldl_append, List.foldl_map]
  rfl

/-- **Flushing** draws the polygon of the open contour, if there is one, and leaves a contour
without edges. -/
theorem Composer.flushContour_ofEdges [Scalar α] (s : GraphicsState α) {c : Composer α}
    {edges : List (Point α × Edge α)} (h : c.contour = some (.ofEdges edges)) :
    (flushContour s c).result = .ok () ∧
      (flushContour s c).state =
        { c with
          top := c.top.append
            ((Contour.filled (Contour.cleaned edges) s.transform.polarity).map .shape)
          contour := some .empty } := by
  have hclose : (Action.inside (.ofEdges edges) Contour.close c).result =
      .ok (if Contour.isDegenerate (Contour.cleaned edges) then none
        else some (Contour.cleaned edges)) := Contour.close_ofEdges edges
  rw [flushContour, Action.gets_bind, h]
  dsimp only
  rw [(Action.bind_eq_of_ok hclose).1, (Action.bind_eq_of_ok hclose).2, Contour.filled]
  cases Contour.isDegenerate (Contour.cleaned edges) <;> exact ⟨rfl, rfl⟩

/-- A contour that has just been flushed has nothing more to draw. -/
theorem Composer.flushContour_again [Scalar α] (s s' : GraphicsState α) {c : Composer α}
    (h : c.contour.isSome) :
    let flushed := (flushContour s c).state
    (flushContour s' flushed).result = .ok () ∧ (flushContour s' flushed).state = flushed := by
  intro flushed
  have hcontour : flushed.contour = some (.ofEdges []) := by
    obtain ⟨contour, hc⟩ := Option.isSome_iff_exists.mp h
    obtain ⟨outline, hclose⟩ := exists_close contour
    have hinside : (Action.inside contour Contour.close c).result = .ok outline := hclose
    show (flushContour s c).state.contour = _
    rw [flushContour, Action.gets_bind, hc]
    dsimp only
    rw [(Action.bind_eq_of_ok hinside).2]
    cases outline <;> rfl
  obtain ⟨hresult, hstate⟩ := flushContour_ofEdges s' hcontour
  refine ⟨hresult, hstate.trans ?_⟩
  show { flushed with contour := some (.ofEdges []) } = flushed
  rw [← hcontour]

/-! ### Orientation -/

namespace Outline

/-- The edges of an outline in the other direction are its edges turned around, from another one
on. -/
theorem zip_reverse_rotate {β : Type} (l : List β) :
    (l.reverse.zip (l.reverse.rotate 1)).Perm ((l.rotate 1).zip l) := by
  have hedges : l.reverse.zip (l.reverse.rotate 1) = ((l.rotate 1).zip l).reverse.rotate 1 := by
    rw [List.zip_eq_zipWith, List.zip_eq_zipWith, List.reverse_zipWith (by simp),
      List.zipWith_rotate_distrib _ _ _ _ (by simp), rotate_reverse_rotate]
  rw [hedges]
  exact (List.rotate_perm _ _).trans (List.reverse_perm _)

/-- **The other direction** negates the signed area. -/
theorem signedArea_reverse (vertices : List (Point ℝ)) :
    signedArea vertices.reverse = -signedArea vertices := by
  let crosses := (vertices.zip (vertices.rotate 1)).map fun e => cross e.1 e.2
  calc signedArea vertices.reverse
      = (((vertices.rotate 1).zip vertices).map fun e => cross e.1 e.2).sum := by
        rw [signedArea_eq_sum_map, successors_eq_rotate]
        exact ((zip_reverse_rotate vertices).map _).sum_eq
    _ = (crosses.map fun a => -a).sum := by
        rw [← List.zip_swap vertices, List.map_map, List.map_map]
        exact congrArg List.sum (List.map_congr_left fun e _ => cross_comm e.2 e.1)
    _ = -signedArea vertices := by
        rw [← List.sum_neg, signedArea_eq_sum_map, successors_eq_rotate]

end Outline

namespace Contour

/-- Degenerate outlines of real points. -/
theorem isDegenerate_iff (outline : List (Point ℝ)) :
    isDegenerate outline = true ↔
      outline.length < 3 ∨ |Outline.signedArea outline| < 1e-12 := by
  rw [isDegenerate, Bool.or_eq_true, decide_eq_true_iff, decide_eq_true_iff]
  rfl

/-- The direction in which an outline is filled makes its signed area the absolute one. -/
theorem signedArea_oriented (outline : List (Point ℝ)) :
    Outline.signedArea (oriented outline) = |Outline.signedArea outline| := by
  rw [oriented]
  split
  · next h =>
      rw [Scalar.zero_real] at h
      exact (abs_of_pos h).symm
  · next h =>
      rw [Scalar.zero_real] at h
      rw [Outline.signedArea_reverse, abs_of_nonpos (not_lt.mp h)]

end Contour

/-- **Orientation.** A contour is drawn as its cleaned vertices in one of their two directions, with
at least three of them and a positive signed area; or nothing is drawn, and the cleaned vertices are
too few or have no area. Either way the contour has no edges afterwards, and to flush it again draws
nothing. -/
theorem Composer.flushContour_oriented (edges : List (Point ℝ × Edge ℝ)) (s : GraphicsState ℝ)
    (c : Composer ℝ) :
    let step := flushContour s { c with contour := some (.ofEdges edges) }
    let cleaned := Contour.cleaned edges
    step.result = .ok () ∧ step.state.contour = some .empty ∧
      (∀ s', (flushContour s' step.state).result = .ok () ∧
        (flushContour s' step.state).state = step.state) ∧
      ((∃ vertices, step.state =
          { c with
            top := c.top.pushShape ⟨.polygon vertices, s.transform.polarity⟩
            contour := some .empty } ∧
          (vertices = cleaned ∨ vertices = cleaned.reverse) ∧ 3 ≤ vertices.length ∧
          1e-12 ≤ Outline.signedArea vertices ∧ 0 < Outline.signedArea vertices) ∨
        step.state = { c with contour := some .empty } ∧
          (cleaned.length < 3 ∨ |Outline.signedArea cleaned| < 1e-12)) := by
  intro step cleaned
  obtain ⟨hresult, hstate⟩ :=
    flushContour_ofEdges (c := { c with contour := some (.ofEdges edges) }) s rfl
  have hcontour : step.state.contour = some .empty := by rw [hstate]
  refine ⟨hresult, hcontour, fun s' => flushContour_again s s' rfl, ?_⟩
  by_cases hdegenerate : Contour.isDegenerate cleaned = true
  · refine .inr ⟨?_, (Contour.isDegenerate_iff cleaned).mp hdegenerate⟩
    rw [hstate, Contour.filled, if_pos hdegenerate]
    rfl
  · have hfilled := hdegenerate
    rw [Contour.isDegenerate_iff, not_or, not_lt, not_lt] at hfilled
    refine .inl ⟨Contour.oriented cleaned, ?_, Contour.oriented_eq_or cleaned, ?_, ?_⟩
    · rw [hstate, Contour.filled, if_neg hdegenerate, Contour.fill_eq]
      rfl
    · rw [Contour.length_oriented]
      exact hfilled.1
    · rw [Contour.signedArea_oriented]
      exact ⟨hfilled.2, lt_of_lt_of_le (by norm_num) hfilled.2⟩

end Photoplot
