import Mathlib.Algebra.Order.Field.Rat
import Mathlib.Data.List.DropRight
import Mathlib.Data.Nat.Digits.Lemmas
import Mathlib.Tactic.FieldSimp
import Mathlib.Tactic.Linarith
import Mathlib.Tactic.Positivity
import Mathlib.Tactic.Ring
import Photoplot.Decimal.Binary

/-!
# Digits, and Decimal Rounding

The two halves of the theory of decimals: what digit strings spell, and how a rational number is
rounded to a number of places.

## Convention

`Decimal.IsRounding x places units` is **rounding to the nearest, ties to even**, stated over the
rational numbers. It determines the units, so a function that satisfies it is the one and only
rounding of that kind.

## Main results

* `Digits.ofDigitChars_eq_zero_iff`: only zeros spell zero.
* `Digits.ofDigitChars_dropWhile`, `Digits.rdropWhile_append_replicate`: what zeros at either end
  contribute.
* `Digits.ofDigitChars_inj`: as many digits that spell the same number are the same digits.
* `Decimal.toRat_eq_iff`: when decimals with the same places stand for the same number.
* `Decimal.divHalfEven_isRounding`: the rounded quotient is the rounding of the quotient.
* `Binary.roundedUnits_isRounding`: the units of a double are the rounding of its exact value.
-/

namespace Photoplot

/-! ### Digit strings -/

namespace Digits

/-- Zeros in front contribute nothing to what digits spell. -/
theorem ofDigitChars_dropWhile (digits : List Char) :
    Nat.ofDigitChars 10 (digits.dropWhile (· == '0')) 0 = Nat.ofDigitChars 10 digits 0 := by
  induction digits with
  | nil => rfl
  | cons c rest ih =>
      by_cases hc : c = '0'
      · subst hc
        rw [List.dropWhile_cons_of_pos (by rfl), ih, Nat.ofDigitChars_cons]
        rfl
      · rw [List.dropWhile_cons_of_neg (by simpa using hc)]

/-- Zeros that are put in front are dropped again. -/
theorem dropWhile_replicate_append (k : ℕ) (digits : List Char) :
    (List.replicate k '0' ++ digits).dropWhile (· == '0') = digits.dropWhile (· == '0') :=
  List.dropWhile_append_of_pos fun c hc => by simp [(List.mem_replicate.mp hc).2]

/-- The codes of digits. -/
theorem toNat_of_isDigit {c : Char} (h : c.isDigit) : 48 ≤ c.toNat ∧ c.toNat ≤ 57 := by
  simp only [Char.isDigit, Bool.and_eq_true, decide_eq_true_eq] at h
  exact h

/-- One more digit at the end. -/
theorem ofDigitChars_concat (digits : List Char) (c : Char) :
    Nat.ofDigitChars 10 (digits ++ [c]) 0 =
      10 * Nat.ofDigitChars 10 digits 0 + (c.toNat - 48) := by
  rw [Nat.ofDigitChars_append, Nat.ofDigitChars_cons, Nat.ofDigitChars_nil]
  rfl

/-- So many digits denote a number below the power of ten. -/
theorem ofDigitChars_lt {digits : List Char} (h : ∀ c ∈ digits, c.isDigit) :
    Nat.ofDigitChars 10 digits 0 < 10 ^ digits.length := by
  induction digits using List.reverseRecOn with
  | nil => simp
  | append_singleton digits c ih =>
      have hc := toNat_of_isDigit (h c (by simp))
      have hlt := ih fun d hd => h d (by simp [hd])
      rw [ofDigitChars_concat, List.length_append, List.length_singleton, pow_succ]
      omega

/-- **Equally many digits** that spell the same number are the same digits. -/
theorem ofDigitChars_inj {digits digits' : List Char} (h : ∀ c ∈ digits, c.isDigit)
    (h' : ∀ c ∈ digits', c.isDigit) (hlength : digits.length = digits'.length)
    (hspelled : Nat.ofDigitChars 10 digits 0 = Nat.ofDigitChars 10 digits' 0) :
    digits = digits' := by
  induction digits using List.reverseRecOn generalizing digits' with
  | nil => exact (List.length_eq_zero_iff.mp hlength.symm).symm
  | append_singleton digits c ih =>
      obtain rfl | ⟨digits', c', rfl⟩ := List.eq_nil_or_concat' digits'
      · simp at hlength
      have hc := toNat_of_isDigit (h c (by simp))
      have hc' := toNat_of_isDigit (h' c' (by simp))
      rw [ofDigitChars_concat, ofDigitChars_concat] at hspelled
      have hlast : c = c' := Char.toNat_inj.mp (by omega)
      have hinit : digits = digits' := ih (fun d hd => h d (by simp [hd]))
        (fun d hd => h' d (by simp [hd])) (by simpa using hlength) (by omega)
      rw [hinit, hlast]

/-- Digits spell zero only when all of them are zeros. -/
theorem ofDigitChars_eq_zero_iff {digits : List Char} (h : ∀ c ∈ digits, c.isDigit) :
    Nat.ofDigitChars 10 digits 0 = 0 ↔ ∀ c ∈ digits, c = '0' := by
  induction digits with
  | nil => simp
  | cons c rest ih =>
      have hc : c.isDigit := h c List.mem_cons_self
      have hzero : c.toNat - '0'.toNat = 0 ↔ c = '0' := by
        have hrange := (toNat_of_isDigit hc).1
        have h48 : '0'.toNat = 48 := rfl
        refine ⟨fun hsub => Char.toNat_inj.mp ?_, fun heq => by simp [heq]⟩
        omega
      rw [Nat.ofDigitChars_cons, Nat.ofDigitChars_eq_ofDigitChars_zero,
        Nat.add_eq_zero_iff, ih fun d hd => h d (List.mem_cons_of_mem c hd),
        List.forall_mem_cons]
      simpa using fun _ => hzero

/-- Digits with their zeros at the end cut off and put back. -/
theorem rdropWhile_append_replicate (digits : List Char) :
    (digits.rdropWhile (· == '0')) ++
      List.replicate (digits.length - (digits.rdropWhile (· == '0')).length) '0' = digits := by
  have hsplit : digits.rdropWhile (· == '0') ++ digits.rtakeWhile (· == '0') = digits := by
    rw [List.rdropWhile, List.rtakeWhile, ← List.reverse_append,
      List.takeWhile_append_dropWhile, List.reverse_reverse]
  have hzeros : digits.rtakeWhile (· == '0') =
      List.replicate (digits.rtakeWhile (· == '0')).length '0' :=
    List.eq_replicate_iff.mpr ⟨rfl, fun c hc => by simpa using List.mem_rtakeWhile_imp hc⟩
  have hlength : digits.length - (digits.rdropWhile (· == '0')).length =
      (digits.rtakeWhile (· == '0')).length := by
    have := congrArg List.length hsplit
    rw [List.length_append] at this
    omega
  rw [hlength, ← hzeros, hsplit]

/-- The digits of a number without zeros in front: none at all for zero. -/
theorem dropWhile_toDigits (n : ℕ) :
    (Nat.toDigits 10 n).dropWhile (· == '0') = if n = 0 then [] else Nat.toDigits 10 n := by
  induction n using Nat.strong_induction_on with
  | _ n ih =>
      rw [Nat.toDigits_eq_if (by norm_num)]
      split
      · rename_i hlt
        interval_cases n <;> rfl
      · rename_i hge
        have hpos : n / 10 ≠ 0 := by omega
        have hn : n ≠ 0 := by omega
        have ih' := ih (n / 10) (by omega)
        rw [if_neg hpos] at ih'
        rw [if_neg hn, List.dropWhile_append, ih', if_neg]
        simp

/-- The number of digits without zeros in front. -/
theorem length_dropWhile_toDigits (n : ℕ) :
    ((Nat.toDigits 10 n).dropWhile (· == '0')).length = (Nat.digits 10 n).length := by
  rw [dropWhile_toDigits]
  by_cases hn : n = 0
  · simp [hn]
  · rw [if_neg hn]
    refine eq_of_forall_ge_iff fun k => ?_
    rcases Nat.eq_zero_or_pos k with rfl | hk
    · simp [hn, Nat.digits_eq_nil_iff_eq_zero]
    · rw [Nat.length_toDigits_le_iff (by norm_num) hk, Nat.digits_length_le_iff (by norm_num)]

end Digits

namespace Decimal

/-- The scale of a decimal is a power of ten. -/
@[simp] theorem scale_eq (places : ℕ) : scale places = 10 ^ places := rfl

/-- Zeros in front of an expansion do not change its number. -/
theorem ofDigitChars_paddedDigits (width n : ℕ) :
    Nat.ofDigitChars 10 (paddedDigits width n) 0 = n := by
  rw [paddedDigits, Nat.ofDigitChars_append, Nat.ofDigitChars_replicate_zero, Nat.mul_zero,
    Nat.ofDigitChars_ten_toDigits]

/-- A number that has room is padded to the width exactly. -/
theorem length_paddedDigits {width n : ℕ} (hwidth : 0 < width) (hn : n < 10 ^ width) :
    (paddedDigits width n).length = width := by
  have hle := (Nat.length_toDigits_le_iff (by norm_num : 1 < 10) hwidth).mpr hn
  simp only [paddedDigits, List.length_append, List.length_replicate]
  omega

/-! ### Rounding -/

/-- **Rounding.** `units` is the whole number nearest to `x * 10 ^ places`, and the even one of
two that are equally near. -/
structure IsRounding (x : ℚ) (places units : ℕ) : Prop where
  near : |x * 10 ^ places - units| ≤ 1 / 2
  even_of_tie : |x * 10 ^ places - units| = 1 / 2 → Even units

/-- A number has at most one rounding. -/
theorem IsRounding.unique {x : ℚ} {places m n : ℕ} (hm : IsRounding x places m)
    (hn : IsRounding x places n) : m = n := by
  by_contra hne
  set y := x * 10 ^ places
  have hm1 := abs_le.mp hm.near
  have hn1 := abs_le.mp hn.near
  -- two different roundings are neighbours, and the number is half way between them
  rcases Nat.lt_or_gt_of_ne hne with hlt | hlt
  · have hcast : (m : ℚ) + 1 ≤ n := by exact_mod_cast hlt
    have heq : n = m + 1 := by
      have : (n : ℚ) ≤ m + 1 := by linarith [hm1.2, hn1.1]
      exact le_antisymm (by exact_mod_cast this) hlt
    subst heq
    push_cast at hn1 hcast
    have hm2 := hm.even_of_tie (by rw [show x * 10 ^ places - m = 1 / 2 by linarith]; norm_num)
    have hn2 := hn.even_of_tie (by
      rw [show x * 10 ^ places - ((m + 1 : ℕ) : ℚ) = -(1 / 2) by push_cast; linarith]; norm_num)
    exact (Nat.even_add_one.mp hn2) hm2
  · have hcast : (n : ℚ) + 1 ≤ m := by exact_mod_cast hlt
    have heq : m = n + 1 := by
      have : (m : ℚ) ≤ n + 1 := by linarith [hm1.1, hn1.2]
      exact le_antisymm (by exact_mod_cast this) hlt
    subst heq
    push_cast at hm1 hcast
    have hn2 := hn.even_of_tie (by rw [show x * 10 ^ places - n = 1 / 2 by linarith]; norm_num)
    have hm2 := hm.even_of_tie (by
      rw [show x * 10 ^ places - ((n + 1 : ℕ) : ℚ) = -(1 / 2) by push_cast; linarith]; norm_num)
    exact (Nat.even_add_one.mp hm2) hn2

/-- The rounded quotient is the rounding of the quotient. -/
theorem divHalfEven_isRounding (numerator : ℕ) {denominator : ℕ} (h : 0 < denominator) :
    IsRounding ((numerator : ℚ) / denominator) 0 (divHalfEven numerator denominator) := by
  set q := numerator / denominator with hq
  set r := numerator % denominator with hr
  have hd : (0 : ℚ) < denominator := by exact_mod_cast h
  have hquotient : (numerator : ℚ) / denominator = q + r / denominator := by
    have hdiv : (numerator : ℚ) = denominator * q + r := by
      exact_mod_cast (Nat.div_add_mod numerator denominator).symm
    rw [hdiv]
    field_simp
  have hnonneg : (0 : ℚ) ≤ r / denominator := by positivity
  have hlt_one : (r : ℚ) / denominator < 1 := by
    rw [div_lt_one hd]
    exact_mod_cast Nat.mod_lt numerator h
  rcases lt_trichotomy (2 * r) denominator with hlt | heq | hgt
  · have hhalf : (r : ℚ) / denominator < 1 / 2 := by
      rw [div_lt_iff₀ hd]
      have : (2 * r : ℚ) < denominator := by exact_mod_cast hlt
      linarith
    have hval : divHalfEven numerator denominator = q := by
      simp only [divHalfEven, ← hr, ← hq, if_pos hlt]
    rw [hval]
    have habs : |(numerator : ℚ) / denominator * 10 ^ 0 - q| = (r : ℚ) / denominator := by
      rw [hquotient, pow_zero, mul_one, add_sub_cancel_left, abs_of_nonneg hnonneg]
    exact ⟨by rw [habs]; exact hhalf.le, fun htie => absurd (habs ▸ htie) hhalf.ne⟩
  · have hhalf : (r : ℚ) / denominator = 1 / 2 := by
      rw [div_eq_iff hd.ne']
      have : (2 * r : ℚ) = denominator := by exact_mod_cast heq
      linarith
    have hval : divHalfEven numerator denominator = q + q % 2 := by
      simp only [divHalfEven, ← hr, ← hq]
      rw [if_neg (by omega), if_neg (by omega)]
    rw [hval]
    have heven : Even (q + q % 2) := by
      rw [Nat.even_iff]
      omega
    refine ⟨?_, fun _ => heven⟩
    rw [hquotient, hhalf, pow_zero, mul_one]
    rcases Nat.mod_two_eq_zero_or_one q with hmod | hmod
    · rw [hmod, Nat.add_zero, add_sub_cancel_left]
      norm_num
    · rw [hmod]
      push_cast
      rw [show (q : ℚ) + 1 / 2 - (q + 1) = -(1 / 2) by ring]
      norm_num
  · have hhalf : 1 / 2 < (r : ℚ) / denominator := by
      rw [lt_div_iff₀ hd]
      have : (denominator : ℚ) < 2 * r := by exact_mod_cast hgt
      linarith
    have hval : divHalfEven numerator denominator = q + 1 := by
      simp only [divHalfEven, ← hr, ← hq]
      rw [if_neg (by omega), if_pos hgt]
    rw [hval]
    have habs : |(numerator : ℚ) / denominator * 10 ^ 0 - (q + 1 : ℕ)| =
        1 - (r : ℚ) / denominator := by
      rw [hquotient, pow_zero, mul_one, abs_of_neg (by push_cast; linarith)]
      push_cast
      ring
    exact ⟨by rw [habs]; linarith, fun htie => absurd (habs ▸ htie) (by linarith)⟩

/-! ### Decimals as rational numbers -/

/-- The number that a decimal stands for. Both zeros are the number zero. -/
def toRat (d : Decimal) : ℚ := (if d.negative then -1 else 1) * (d.coefficient / 10 ^ d.places)

/-- The absolute value of a decimal is its coefficient over the power of ten. -/
theorem abs_toRat (d : Decimal) : |d.toRat| = d.coefficient / 10 ^ d.places := by
  have hmagnitude : (0 : ℚ) ≤ d.coefficient / 10 ^ d.places := by positivity
  rw [toRat, abs_mul, abs_of_nonneg hmagnitude]
  split <;> simp

/-- A decimal is negative when its sign is and it is not zero. -/
theorem toRat_neg_iff (d : Decimal) : d.toRat < 0 ↔ d.negative ∧ d.coefficient ≠ 0 := by
  obtain ⟨negative, units, places⟩ := d
  rcases Nat.eq_zero_or_pos units with rfl | hpos
  · simp [toRat]
  · have hmagnitude : (0 : ℚ) < units / 10 ^ places := by positivity
    cases negative with
    | false => simpa [toRat] using hmagnitude.le
    | true => simpa [toRat, hpos.ne'] using hmagnitude

/-- Decimals with the same places stand for the same number when they have the same coefficient, and
the same sign unless that is zero. -/
theorem toRat_eq_iff {d d' : Decimal} (hplaces : d.places = d'.places) :
    d.toRat = d'.toRat ↔
      d.coefficient = d'.coefficient ∧ (d.coefficient ≠ 0 → d.negative = d'.negative) := by
  constructor
  · intro heq
    have habs : (d.coefficient : ℚ) / 10 ^ d.places = d'.coefficient / 10 ^ d'.places := by
      rw [← abs_toRat, heq, abs_toRat]
    rw [hplaces, div_left_inj' (by positivity), Nat.cast_inj] at habs
    refine ⟨habs, fun hne => Bool.eq_iff_iff.mpr ?_⟩
    have hsign := d.toRat_neg_iff
    rw [heq, toRat_neg_iff, ← habs] at hsign
    simpa [hne] using hsign.symm
  · rintro ⟨hunits, hsign⟩
    rw [toRat, toRat, hplaces, hunits]
    by_cases hzero : d'.coefficient = 0
    · simp [hzero]
    · rw [hsign (hunits ▸ hzero)]

end Decimal

/-! ### Doubles as rational numbers -/

namespace Binary

/-- The exact value of a double, if it is finite. -/
def toRat? : Binary → Option ℚ
  | .finite negative significand exponent =>
    some ((if negative then -1 else 1) * (significand * 2 ^ exponent))
  | _ => none

/-- The fraction of a significand and an exponent has their value, and its denominator is positive.
-/
theorem fraction_eq (significand : ℕ) (exponent : ℤ) :
    ((fraction significand exponent).1 : ℚ) / (fraction significand exponent).2 =
      significand * 2 ^ exponent ∧ 0 < (fraction significand exponent).2 := by
  cases exponent with
  | ofNat e => simp [fraction, Nat.shiftLeft_eq]
  | negSucc e =>
      simp only [fraction, Nat.shiftLeft_eq, one_mul, zpow_negSucc]
      exact ⟨by push_cast; rw [div_eq_mul_inv], by positivity⟩

/-- The units of a double are the rounding of its magnitude. -/
theorem roundedUnits_isRounding (places significand : ℕ) (exponent : ℤ) :
    Decimal.IsRounding (significand * 2 ^ exponent) places
      (roundedUnits places significand exponent) := by
  obtain ⟨hvalue, hpos⟩ := fraction_eq significand exponent
  have hround := Decimal.divHalfEven_isRounding
    ((fraction significand exponent).1 * 10 ^ places) hpos
  have hscaled : (((fraction significand exponent).1 * 10 ^ places : ℕ) : ℚ) /
      (fraction significand exponent).2 * 10 ^ 0 = significand * 2 ^ exponent * 10 ^ places := by
    rw [← hvalue]
    push_cast
    ring
  exact ⟨hscaled ▸ hround.near, hscaled ▸ hround.even_of_tie⟩

end Binary

end Photoplot
