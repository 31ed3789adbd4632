import Mathlib.Analysis.SpecialFunctions.Complex.Arg
import Mathlib.Analysis.SpecialFunctions.Trigonometric.Inverse
import Photoplot.Scalar

/-!
# Real Numbers as Scalars

The scalar that programs are reasoned about on. Arithmetic is exact, every value is a number, and
the functions of trigonometry are the real ones. The range of coordinates has no end, so nothing
is ever cut off; `largest` only tells the empty box from other boxes.

## Main results

* `Scalar.lesser_eq_min`, `Scalar.greater_eq_max`: minimum and maximum are the usual ones.
-/

namespace Photoplot

open Classical in
noncomputable instance : Scalar ℝ where
  beq a b := decide (a = b)
  decidableLT := inferInstance
  decidableLE := inferInstance
  abs a := |a|
  round a := if 0 ≤ a then ⌊a + 1 / 2⌋ else ⌈a - 1 / 2⌉
  toNat a := ⌊a⌋₊
  isMultipleOf a n := decide (∃ k : ℤ, a = k * n)
  pi := Real.pi
  largest := 1.7976931348623157e308
  isLimited := false
  sin := Real.sin
  cos := Real.cos
  asin := Real.arcsin
  atan2 y x := Complex.arg ⟨x, y⟩
  hypot x y := √(x ^ 2 + y ^ 2)

namespace Scalar

/-- The test for equality of real numbers decides it. -/
@[simp] theorem beq_iff_eq_real {a b : ℝ} : (a == b) = true ↔ a = b := by
  classical exact decide_eq_true_iff

/-- Every real number is a number. -/
@[simp] theorem isNumber_real (a : ℝ) : isNumber a = true := beq_iff_eq_real.mpr rfl

/-- The zero of a scalar is that of the real numbers, and so is the one. -/
theorem zero_real : (instOfNat 0).ofNat = (0 : ℝ) := Nat.cast_zero

/-- The one of a scalar is that of the real numbers. -/
theorem one_real : (instOfNat 1).ofNat = (1 : ℝ) := Nat.cast_one

/-- The lesser of two real numbers is their minimum. -/
theorem lesser_eq_min (a b : ℝ) : lesser a b = min a b := by
  rw [lesser, if_pos (isNumber_real b), min_def]
  rcases lt_trichotomy a b with h | rfl | h
  · rw [if_pos h, if_pos h.le]
  · simp
  · rw [if_neg h.not_gt, if_neg h.not_ge]

/-- The greater of two real numbers is their maximum. -/
theorem greater_eq_max (a b : ℝ) : greater a b = max a b := by
  rw [greater, if_pos (isNumber_real b), max_def]
  rcases lt_trichotomy a b with h | rfl | h
  · rw [if_neg h.not_gt, if_pos h.le]
  · simp
  · rw [if_pos h, if_neg h.not_ge]

/-- Multiples are multiples by an integer. -/
theorem isMultipleOf_iff {a : ℝ} {n : ℕ} :
    isMultipleOf a n = true ↔ ∃ k : ℤ, a = k * n := by
  classical exact decide_eq_true_iff

end Scalar

end Photoplot
