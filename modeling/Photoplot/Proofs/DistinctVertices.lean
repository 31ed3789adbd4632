import Mathlib.Data.List.Destutter
import Photoplot.Geometry.Outline
import Photoplot.Scalar.Double

/-!
# Vertices That Repeat

An outline is cleaned by one pass from its first vertex: a vertex is kept unless it is near the one
kept before it. Nearness is not transitive, so what a vertex is compared with matters, and it is the
vertex **kept** before it. That makes every kept vertex far from the next one.

The outline is closed, so its last vertex may repeat the first one. The pass looks at this once,
for the last vertex of the outline. When that vertex is dropped, the vertex kept before it becomes
the last one, and nothing compares it with the first. So an outline may still end where it begins
after it has been cleaned, and this is the only repetition that is left.

## Order convention

Distances are not assumed to be symmetric: the vertex that is kept comes first, and at the closing
edge the first vertex of the outline does.

## Main definitions

* `Outline.ApartAround`: no two vertices that are adjacent around the outline are near.
* `Outline.ClosedTwice`: the last vertex is dropped, and the one kept before it repeats the first.

## Main results

* `Outline.withoutRepeats_concat`: cleaning as the open pass and the test for the last vertex.
* `Outline.withoutRepeats_of_isChain`: what cleaning makes of an outline that is clean except for
  its closing edge.
* `Outline.apartAround_withoutRepeats_iff`: when cleaning removes all repetitions.
* `Outline.not_apartAround_closedTwice`: an outline with a repetition that is left.
-/

namespace Photoplot.Outline

variable {α : Type} [Scalar α] {tolerance : α}

/-! ### Vertices that are apart -/

/-- The second point does not repeat the first. -/
abbrev Apart (tolerance : α) (p q : Point α) : Prop := ¬ p.near tolerance q

/-- No vertex repeats the one before it, and the last one does not repeat the first. -/
structure ApartAround (tolerance : α) (vertices : List (Point α)) : Prop where
  steps : vertices.IsChain (Apart tolerance)
  closing : ∀ first ∈ vertices.head?, ∀ last ∈ vertices.getLast?, Apart tolerance first last

/-- The vertices that the pass keeps, as long as it does not come to the end of the outline. -/
def openPass (tolerance : α) (first : Point α) (rest : List (Point α)) : List (Point α) :=
  rest.destutter' (Apart tolerance) first

/-- The vertex that the pass kept last. -/
def lastKept (tolerance : α) (first : Point α) (rest : List (Point α)) : Point α :=
  (openPass tolerance first rest).getLastD first

/-- Whether the last vertex of an outline is dropped: it repeats the one kept before it, or the
first one of the outline, which closes it. -/
def dropsLast (tolerance : α) (first kept last : Point α) : Bool :=
  kept.near tolerance last || first.near tolerance last

/-- An outline is **closed twice** when its last vertex is dropped and the vertex kept before it
repeats the first one, too. -/
def ClosedTwice (tolerance : α) (vertices : List (Point α)) : Prop :=
  ∃ first middle last, vertices = first :: middle ++ [last] ∧
    dropsLast tolerance first (lastKept tolerance first middle) last ∧
    first.near tolerance (lastKept tolerance first middle)

/-! ### The pass -/

/-- The last vertex that the pass keeps. -/
theorem getLast?_openPass (first : Point α) (rest : List (Point α)) :
    (openPass tolerance first rest).getLast? = some (lastKept tolerance first rest) := by
  have hne : openPass tolerance first rest ≠ [] := List.destutter'_ne_nil _ _
  rw [lastKept, List.getLastD_eq_getLast?, List.getLast?_eq_some_getLast hne]
  rfl

/-- The pass keeps the first vertex. -/
theorem head?_openPass (first : Point α) (rest : List (Point α)) :
    (openPass tolerance first rest).head? = some first := by
  induction rest with
  | nil => rfl
  | cons p rest ih =>
      rw [openPass, List.destutter'_cons]
      split
      · rfl
      · exact ih

/-- **The end of the pass.** Only the last vertex is compared with the first one, too. -/
theorem cons_keepDistinct (first kept last : Point α) (middle : List (Point α)) :
    kept :: keepDistinct tolerance first kept (middle ++ [last]) =
      openPass tolerance kept middle ++
        if dropsLast tolerance first (lastKept tolerance kept middle) last then [] else [last] := by
  induction middle generalizing kept with
  | nil => rfl
  | cons p rest ih =>
      obtain ⟨next, after, hrest⟩ : ∃ next after, rest ++ [last] = next :: after :=
        List.exists_cons_of_ne_nil (by simp)
      rw [List.cons_append, hrest, keepDistinct, ← hrest]
      · by_cases hnear : kept.near tolerance p
        · have hpass : openPass tolerance kept (p :: rest) = openPass tolerance kept rest :=
            List.destutter'_cons_neg _ (not_not.mpr hnear)
          rw [if_pos hnear, ih, lastKept, lastKept, hpass]
        · have hpass : openPass tolerance kept (p :: rest) = kept :: openPass tolerance p rest :=
            List.destutter'_cons_pos _ hnear
          have hlast : lastKept tolerance kept (p :: rest) = lastKept tolerance p rest := by
            refine Option.some.inj ?_
            rw [← getLast?_openPass, ← getLast?_openPass, hpass, List.getLast?_cons,
              getLast?_openPass]
            rfl
          rw [if_neg hnear, ih, hpass, hlast, List.cons_append]
      · simp

/-- **Cleaning** is the open pass and then the test for the last vertex, unless too few vertices
would be left. -/
theorem withoutRepeats_concat (first last : Point α) (middle : List (Point α)) :
    withoutRepeats tolerance (first :: middle ++ [last]) =
      let kept := openPass tolerance first middle ++
        if dropsLast tolerance first (lastKept tolerance first middle) last then [] else [last]
      if kept.length < 3 then first :: middle ++ [last] else kept := by
  rw [List.cons_append, withoutRepeats, cons_keepDistinct]

omit [Scalar α] in
/-- An outline of at least two vertices, from both ends. -/
theorem exists_ends {vertices : List (Point α)} (h : 2 ≤ vertices.length) :
    ∃ first middle last, vertices = first :: middle ++ [last] := by
  rcases vertices with _ | ⟨first, rest⟩
  · simp at h
  rcases List.eq_nil_or_concat' rest with rfl | ⟨middle, last, rfl⟩
  · simp at h
  · exact ⟨first, middle, last, rfl⟩

/-! ### Cleaning again -/

/-- Around an outline whose vertices do not repeat those before them there is only the closing edge
left to look at. -/
theorem apartAround_iff {first last : Point α} {middle : List (Point α)}
    (hsteps : (first :: middle ++ [last]).IsChain (Apart tolerance)) :
    ApartAround tolerance (first :: middle ++ [last]) ↔ Apart tolerance first last := by
  constructor
  · exact fun h => h.closing first rfl last (List.getLast?_concat)
  · refine fun h => ⟨hsteps, ?_⟩
    rintro _ ⟨⟩ other hother
    rw [List.getLast?_concat] at hother
    exact Option.some.inj hother ▸ h

/-- **Cleaning an outline that is clean** except for its closing edge changes it only if the last
vertex repeats the first and can be spared. -/
theorem withoutRepeats_eq_self_iff {vertices : List (Point α)}
    (hsteps : vertices.IsChain (Apart tolerance)) (hlength : 3 ≤ vertices.length) :
    withoutRepeats tolerance vertices = vertices ↔
      ApartAround tolerance vertices ∨ vertices.length = 3 := by
  obtain ⟨first, middle, last, rfl⟩ := exists_ends (Nat.le_of_succ_le hlength)
  obtain ⟨hmiddle, -, hlast⟩ := List.isChain_append.mp hsteps
  have hpass : openPass tolerance first middle = first :: middle :=
    List.destutter'_of_isChain_cons _ _ hmiddle
  have hkept : (lastKept tolerance first middle).near tolerance last = false := by
    refine Bool.eq_false_iff.mpr (hlast _ ?_ last rfl)
    rw [← hpass]
    exact getLast?_openPass first middle
  rw [withoutRepeats_concat, apartAround_iff hsteps, hpass, dropsLast, hkept, Bool.false_or]
  cases hclosing : first.near tolerance last with
  | false => simp [Apart, hclosing]
  | true =>
      simp only [Apart, hclosing, if_true, List.append_nil, not_true_eq_false, false_or]
      split
      · simp_all
        omega
      · simp_all
        omega

/-! ### What is left -/

/-- For an outline that is taken apart: it is closed twice when its last vertex is dropped and the
vertex kept before it repeats the first one. -/
theorem closedTwice_iff {first last : Point α} {middle : List (Point α)} :
    ClosedTwice tolerance (first :: middle ++ [last]) ↔
      dropsLast tolerance first (lastKept tolerance first middle) last ∧
        first.near tolerance (lastKept tolerance first middle) := by
  constructor
  · rintro ⟨first', middle', last', heq, hclosed⟩
    obtain ⟨hfront, hlast⟩ := List.append_inj' heq rfl
    obtain ⟨rfl, rfl⟩ := List.cons.inj hfront
    obtain rfl := List.head_eq_of_cons_eq hlast
    exact hclosed
  · exact fun hclosed => ⟨first, middle, last, rfl, hclosed⟩

/-- An outline that is changed keeps three vertices at least. -/
theorem exists_of_withoutRepeats_ne {vertices : List (Point α)}
    (h : withoutRepeats tolerance vertices ≠ vertices) :
    ∃ first middle last, vertices = first :: middle ++ [last] ∧
      3 ≤ (withoutRepeats tolerance vertices).length ∧
      withoutRepeats tolerance vertices = openPass tolerance first middle ++
        if dropsLast tolerance first (lastKept tolerance first middle) last
        then [] else [last] := by
  have hlength : 2 ≤ vertices.length := by
    rcases vertices with _ | ⟨first, _ | ⟨second, rest⟩⟩
    · exact absurd rfl h
    · exact absurd rfl h
    · simp
  obtain ⟨first, middle, last, rfl⟩ := exists_ends hlength
  refine ⟨first, middle, last, rfl, ?_⟩
  rw [withoutRepeats_concat] at h ⊢
  generalize openPass tolerance first middle ++ _ = kept at h ⊢
  by_cases hkept : kept.length < 3
  · exact absurd (if_pos hkept) h
  · exact ⟨by rw [if_neg hkept]; exact not_lt.mp hkept, if_neg hkept⟩

/-- No vertex of what is left repeats the one before it, and all is well at the closing edge too
unless the outline was closed twice. -/
theorem withoutRepeats_of_ne {vertices : List (Point α)}
    (hchanged : withoutRepeats tolerance vertices ≠ vertices) :
    (withoutRepeats tolerance vertices).IsChain (Apart tolerance) ∧
      (ApartAround tolerance (withoutRepeats tolerance vertices) ↔
        ¬ ClosedTwice tolerance vertices) := by
  obtain ⟨first, middle, last, rfl, hlength, hcleaned⟩ := exists_of_withoutRepeats_ne hchanged
  rw [closedTwice_iff]
  rw [hcleaned] at hlength ⊢
  have hpassed : (openPass tolerance first middle).IsChain (Apart tolerance) :=
    List.isChain_destutter' _ _ _
  cases hdrops : dropsLast tolerance first (lastKept tolerance first middle) last with
  | true =>
      -- the vertex kept last becomes the end of the outline
      simp only [hdrops, if_true, List.append_nil, true_and] at hlength ⊢
      refine ⟨hpassed, ?_⟩
      obtain ⟨head, inner, tail, hpass⟩ := exists_ends (Nat.le_of_succ_le hlength)
      have hhead : head = first := by
        have h : (openPass tolerance first middle).head? = some first := head?_openPass first middle
        rw [hpass] at h
        exact Option.some.inj h
      have htail : tail = lastKept tolerance first middle := by
        have h : (openPass tolerance first middle).getLast? =
            some (lastKept tolerance first middle) := getLast?_openPass first middle
        rw [hpass, List.getLast?_concat] at h
        exact Option.some.inj h
      rw [hpass] at hpassed ⊢
      rw [apartAround_iff hpassed, hhead, htail]
  | false =>
      obtain ⟨hkept, hfirst⟩ := Bool.or_eq_false_iff.mp hdrops
      have hsteps : (openPass tolerance first middle ++ [last]).IsChain (Apart tolerance) := by
        refine List.isChain_append.mpr ⟨hpassed, List.isChain_singleton _, ?_⟩
        rintro p hp _ ⟨⟩
        rw [getLast?_openPass] at hp
        obtain rfl := Option.some.inj hp
        exact Bool.eq_false_iff.mp hkept
      simp only [Bool.false_eq_true, if_false, false_and, not_false_eq_true, iff_true]
      refine ⟨hsteps, hsteps, ?_⟩
      rintro p hp q hq
      rw [List.head?_append, head?_openPass] at hp
      rw [List.getLast?_concat] at hq
      obtain rfl := Option.some.inj hp
      obtain rfl := Option.some.inj hq
      exact Bool.eq_false_iff.mp hfirst

/-- **What cleaning leaves.** In an outline that is changed no vertex repeats the one before it. The
last one does not repeat the first exactly if the outline was not closed twice. If it was, cleaning
it again drops one more vertex, unless there are only three. -/
theorem apartAround_withoutRepeats_iff {vertices : List (Point α)}
    (hchanged : withoutRepeats tolerance vertices ≠ vertices) :
    let cleaned := withoutRepeats tolerance vertices
    cleaned.IsChain (Apart tolerance) ∧
      (ApartAround tolerance cleaned ↔ ¬ ClosedTwice tolerance vertices) ∧
      (withoutRepeats tolerance cleaned = cleaned ↔
        ¬ ClosedTwice tolerance vertices ∨ cleaned.length = 3) := by
  intro cleaned
  obtain ⟨hsteps, haround⟩ := withoutRepeats_of_ne hchanged
  obtain ⟨-, -, -, -, hlength, -⟩ := exists_of_withoutRepeats_ne hchanged
  refine ⟨hsteps, haround, ?_⟩
  rw [← haround]
  exact withoutRepeats_eq_self_iff hsteps hlength

/-! ### A square that is closed once, and twice -/

/-- The corners of a square. -/
def squareCorners : List (Point Float) := [⟨0, 0⟩, ⟨10, 0⟩, ⟨10, 10⟩, ⟨0, 10⟩]

/-- The first corner is written again at the end, and cleaning drops it. -/
theorem apartAround_closedOnce :
    let vertices := squareCorners ++ [⟨0, 0⟩]
    withoutRepeats 1e-6 vertices ≠ vertices ∧ withoutRepeats 1e-6 vertices = squareCorners ∧
      ApartAround 1e-6 squareCorners ∧ ¬ ClosedTwice 1e-6 vertices := by
  intro vertices
  have hchanged : withoutRepeats 1e-6 vertices ≠ vertices := by decide +kernel
  have hcleaned : withoutRepeats 1e-6 vertices = squareCorners := by decide +kernel
  have hagain : withoutRepeats 1e-6 squareCorners = squareCorners := by decide +kernel
  obtain ⟨hsteps, haround, hsame⟩ := apartAround_withoutRepeats_iff hchanged
  rw [hcleaned] at haround hsame
  have hopen : ¬ ClosedTwice 1e-6 vertices := (hsame.mp hagain).resolve_right (by decide)
  exact ⟨hchanged, hcleaned, haround.mpr hopen, hopen⟩

/-- The first corner is written twice at the end. Cleaning drops it once, so that the outline still
ends where it begins, and cleaning it again drops it once more. -/
theorem not_apartAround_closedTwice :
    let vertices := squareCorners ++ [⟨0, 0⟩, ⟨0, 0⟩]
    withoutRepeats 1e-6 vertices ≠ vertices ∧
      withoutRepeats 1e-6 vertices = squareCorners ++ [⟨0, 0⟩] ∧
      ¬ ApartAround 1e-6 (withoutRepeats 1e-6 vertices) ∧
      withoutRepeats 1e-6 (withoutRepeats 1e-6 vertices) = squareCorners := by
  intro vertices
  have hcleaned : withoutRepeats 1e-6 vertices = squareCorners ++ [⟨0, 0⟩] := by decide +kernel
  have hclosing : ¬ Apart (1e-6 : Float) ⟨0, 0⟩ ⟨0, 0⟩ := by decide +kernel
  rw [hcleaned]
  refine ⟨by decide +kernel, rfl, fun h => ?_, by decide +kernel⟩
  exact hclosing (h.closing ⟨0, 0⟩ rfl ⟨0, 0⟩ rfl)

end Photoplot.Outline
