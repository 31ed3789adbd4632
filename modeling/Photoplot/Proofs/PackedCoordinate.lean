import Mathlib.Algebra.Order.Field.Power
import Photoplot.Coordinate.Packed
import Photoplot.Proofs.Decimal
import Photoplot.Scalar.Double

/-!
# The Round Trip of Packed Coordinates

What is packed is unpacked again: unpacking the packed form of a decimal gives back that decimal,
whichever zeros the format leaves out. Both directions go through the **aligned digits** of the
decimal, as many as the axis has room for: packing leaves out zeros at one end of them, and
unpacking counts the zeros that are missing at that end.

## Main results

* `CoordinateFormat.unpackDecimal_eq`: unpacking reads the digits that follow the sign, without the
  detour over the text of a number, which can always be read.
* `CoordinateFormat.unpackDecimal_packDecimal`: the round trip of a decimal. A zero loses its
  sign.
* `CoordinateFormat.packDecimal_eq_error_iff`: packing fails when the digits before the point do
  not fit, and only then.
* `CoordinateFormat.unpack_pack`: the round trip of a double, which is rounded once.
-/

namespace Photoplot.CoordinateFormat

/-! ### Aligned digits -/

/-- The digits of a decimal before zeros are left out: those before the point, brought to a given
width, and those after it. -/
def alignedDigits (width places units : ℕ) : List Char :=
  let whole := (Decimal.split places units).1.dropWhile (· == '0')
  List.replicate (width - whole.length) '0' ++ whole ++ (Decimal.split places units).2

/-- Aligned digits are digits. -/
theorem isDigit_of_mem_alignedDigits {width places units : ℕ} {c : Char}
    (h : c ∈ alignedDigits width places units) : c.isDigit := by
  rcases List.mem_append.mp h with h | h
  · rcases List.mem_append.mp h with h | h
    · obtain ⟨-, rfl⟩ := List.mem_replicate.mp h
      decide
    · exact Decimal.isDigit_of_mem_split (.inl ((List.dropWhile_suffix _).subset h))
  · exact Decimal.isDigit_of_mem_split (.inr h)

/-- The digits after the point are as many as there are places. -/
theorem length_split_snd (places units : ℕ) : (Decimal.split places units).2.length = places := by
  rcases Nat.eq_zero_or_pos places with rfl | hpos
  · rfl
  · rw [Decimal.split, if_neg (by omega)]
    exact Decimal.length_paddedDigits hpos (Nat.mod_lt _ (Nat.pow_pos (by norm_num)))

/-- Digits that have room are aligned to the format exactly. -/
theorem length_alignedDigits {width places units : ℕ}
    (h : ((Decimal.split places units).1.dropWhile (· == '0')).length ≤ width) :
    (alignedDigits width places units).length = width + places := by
  simp only [alignedDigits, List.length_append, List.length_replicate, length_split_snd]
  omega

/-- The aligned digits spell the units. -/
theorem ofDigitChars_alignedDigits (width places units : ℕ) :
    Nat.ofDigitChars 10 (alignedDigits width places units) 0 = units := by
  have hwhole : Nat.ofDigitChars 10 ((Decimal.split places units).1.dropWhile (· == '0')) 0 =
      units / 10 ^ places := by
    rw [Digits.ofDigitChars_dropWhile, Decimal.split, Nat.ofDigitChars_ten_toDigits]
    rfl
  have hfraction : Nat.ofDigitChars 10 (Decimal.split places units).2 0 =
      units % 10 ^ places := by
    rcases Nat.eq_zero_or_pos places with rfl | hpos
    · simp [Decimal.split, Nat.mod_one]
    · rw [Decimal.split, if_neg (by omega), Decimal.ofDigitChars_paddedDigits]
      rfl
  rw [alignedDigits, Nat.ofDigitChars_append, Nat.ofDigitChars_append,
    Nat.ofDigitChars_replicate_zero, Nat.mul_zero, hwhole,
    Nat.ofDigitChars_eq_ofDigitChars_zero, hfraction, length_split_snd]
  exact Nat.div_add_mod units (10 ^ places)

/-! ### Leaving out zeros and counting them -/

/-- The coefficient that digits stand for in an axis of `total` digits: with omitted leading
zeros it is the number they spell, with omitted trailing zeros that number moved to the left
end of the axis. -/
def coefficient (zeros : ZeroOmission) (total : ℕ) (digits : List Char) : ℕ :=
  let spelled := Nat.ofDigitChars 10 digits 0
  match zeros with
  | .leading => spelled
  | .trailing => spelled * Decimal.scale (total - digits.length)

/-- Omitting zeros leaves characters that were there. -/
theorem omitZeros_subset (zeros : ZeroOmission) (digits : List Char) :
    omitZeros zeros digits ⊆ digits := by
  cases zeros with
  | leading => exact (List.dropWhile_suffix _).subset
  | trailing => exact (List.rdropWhile_prefix (· == '0') digits).subset

/-- Omitting zeros makes a text no longer. -/
theorem length_omitZeros_le (zeros : ZeroOmission) (digits : List Char) :
    (omitZeros zeros digits).length ≤ digits.length := by
  cases zeros with
  | leading => exact (List.dropWhile_suffix _).length_le
  | trailing => exact (List.rdropWhile_prefix (· == '0') digits).length_le

/-- The coefficient of digits does not depend on the zeros that the format leaves out. -/
theorem coefficient_omitZeros (zeros : ZeroOmission) (digits : List Char) :
    coefficient zeros digits.length (omitZeros zeros digits) = Nat.ofDigitChars 10 digits 0 := by
  cases zeros with
  | leading => exact Digits.ofDigitChars_dropWhile digits
  | trailing =>
      have hsplit := Digits.rdropWhile_append_replicate digits
      have hspelled := congrArg (Nat.ofDigitChars 10 · 0) hsplit
      simp only [Nat.ofDigitChars_append, Nat.ofDigitChars_replicate_zero] at hspelled
      rw [← hspelled, Nat.mul_comm]
      rfl

/-- Nothing is left of digits exactly when they spell zero. -/
theorem omitZeros_eq_nil_iff (zeros : ZeroOmission) {digits : List Char}
    (h : ∀ c ∈ digits, c.isDigit) :
    omitZeros zeros digits = [] ↔ Nat.ofDigitChars 10 digits 0 = 0 := by
  rw [Digits.ofDigitChars_eq_zero_iff h]
  cases zeros with
  | leading => simp [omitZeros, List.dropWhile_eq_nil_iff]
  | trailing => simp [omitZeros, List.dropWhile_eq_nil_iff]

/-! ### Reading what was written -/

/-- Restored zeros are digits. -/
theorem isDigit_of_mem_restoreZeros {zeros : ZeroOmission} {total : ℕ} {digits : List Char}
    (h : ∀ c ∈ digits, c.isDigit) {c : Char} (hc : c ∈ restoreZeros zeros total digits) :
    c.isDigit := by
  have himplied : ∀ k, c ∈ List.replicate k '0' → c.isDigit := by
    intro k hk
    obtain ⟨-, rfl⟩ := List.mem_replicate.mp hk
    decide
  cases zeros with
  | leading => exact (List.mem_append.mp hc).elim (himplied _) (h c)
  | trailing => exact (List.mem_append.mp hc).elim (h c) (himplied _)

/-- Restored zeros fill the format exactly. -/
theorem length_restoreZeros (zeros : ZeroOmission) {total : ℕ} {digits : List Char}
    (h : digits.length ≤ total) : (restoreZeros zeros total digits).length = total := by
  cases zeros <;> simp [restoreZeros, h]

/-- With their zeros put back, digits spell their coefficient. -/
theorem ofDigitChars_restoreZeros (zeros : ZeroOmission) (total : ℕ) (digits : List Char) :
    Nat.ofDigitChars 10 (restoreZeros zeros total digits) 0 = coefficient zeros total digits := by
  cases zeros with
  | leading =>
      rw [restoreZeros, Nat.ofDigitChars_append, Nat.ofDigitChars_replicate_zero, Nat.mul_zero]
      rfl
  | trailing =>
      rw [restoreZeros, Nat.ofDigitChars_append, Nat.ofDigitChars_replicate_zero, Nat.mul_comm]
      rfl

/-- Digits with a point among them are read as the decimal that has as many places as digits come
after the point. Reading them fails for no digits only. -/
theorem ofPositional_pointed {width : ℕ} {digits : List Char} (hne : digits ≠ [])
    (hdigits : ∀ c ∈ digits, c.isDigit) :
    Decimal.ofPositional (pointed width digits) =
      some ⟨false, Nat.ofDigitChars 10 digits 0, digits.length - width⟩ := by
  have hwhole : ∀ c ∈ digits.take width, c.isDigit :=
    fun c hc => hdigits c (List.mem_of_mem_take hc)
  have hfraction : ∀ c ∈ digits.drop width, c.isDigit :=
    fun c hc => hdigits c (List.mem_of_mem_drop hc)
  rw [pointed, List.splitAt_eq]
  dsimp only
  by_cases hnone : digits.drop width = []
  · have hlength : digits.length - width = 0 := by rw [← List.length_drop, hnone, List.length_nil]
    have htake : digits.take width = digits := by
      simpa [hnone] using List.take_append_drop width digits
    rw [if_pos (List.isEmpty_iff.mpr hnone), htake, Decimal.ofPositional,
      List.takeWhile_eq_self_iff.mpr hdigits, List.dropWhile_eq_nil_iff.mpr hdigits, hlength]
    exact if_neg (by simpa using hne)
  · rw [if_neg (by simpa using hnone), Decimal.ofPositional,
      List.takeWhile_append_of_pos hwhole, List.dropWhile_append_of_pos hwhole,
      List.takeWhile_cons_of_neg (by decide), List.dropWhile_cons_of_neg (by decide),
      List.append_nil]
    dsimp only
    rw [if_neg, List.take_append_drop, List.length_drop]
    simpa [hnone] using hfraction

/-- Digits alone have no sign. -/
theorem splitSign_digits {digits : List Char} (h : ∀ c ∈ digits, c.isDigit) :
    splitSign digits = (false, digits) := by
  match digits with
  | [] => rfl
  | c :: rest =>
      have hc : c.isDigit := h c List.mem_cons_self
      have hminus : c ≠ '-' := by rintro rfl; exact absurd hc (by decide)
      have hplus : c ≠ '+' := by rintro rfl; exact absurd hc (by decide)
      rw [splitSign]
      · rintro _ ⟨rfl, rfl⟩
        exact hminus rfl
      · rintro _ ⟨rfl, rfl⟩
        exact hplus rfl

/-- **Unpacking** without the text that is written in between. -/
theorem unpackDecimal_eq (f : CoordinateFormat) (axis : Axis) (raw : String) :
    f.unpackDecimal axis raw =
      if (splitSign raw.toList).2 = [] then .error (.tooShort raw)
      else if !(splitSign raw.toList).2.all Char.isDigit then .error (.invalid raw)
      else if (f.axisFormat axis).totalDigits < (splitSign raw.toList).2.length then
        .error (.tooLong raw (f.axisFormat axis).totalDigits)
      else
        .ok ⟨(splitSign raw.toList).1,
          coefficient f.zeros (f.axisFormat axis).totalDigits (splitSign raw.toList).2,
          (f.axisFormat axis).decimalDigits⟩ := by
  rw [unpackDecimal]
  obtain ⟨negative, digits⟩ := splitSign raw.toList
  dsimp only
  by_cases hne : digits = []
  · rw [if_pos (List.isEmpty_iff.mpr hne), if_pos hne]
  rw [if_neg (by simpa using hne), if_neg hne]
  by_cases hother : !digits.all Char.isDigit
  · rw [if_pos hother, if_pos hother]
  rw [if_neg hother, if_neg hother]
  by_cases hlength : (f.axisFormat axis).totalDigits < digits.length
  · rw [if_pos hlength, if_pos hlength]
  have hdigits : ∀ c ∈ digits, c.isDigit := by simpa using hother
  have hpadded := length_restoreZeros f.zeros (Nat.not_lt.mp hlength)
  have hpaddedne : restoreZeros f.zeros (f.axisFormat axis).totalDigits digits ≠ [] := by
    refine List.ne_nil_of_length_pos ?_
    have := List.length_pos_of_ne_nil hne
    omega
  rw [if_neg hlength, if_neg hlength,
    ofPositional_pointed hpaddedne fun c => isDigit_of_mem_restoreZeros hdigits,
    ofDigitChars_restoreZeros, hpadded, AxisFormat.totalDigits, Nat.add_sub_cancel_left]

/-- Digits behind an optional minus sign are unpacked to the decimal that they stand for. -/
theorem unpackDecimal_signed (f : CoordinateFormat) (axis : Axis) (negative : Bool)
    {digits : List Char} (hne : digits ≠ []) (hdigits : ∀ c ∈ digits, c.isDigit)
    (hlength : digits.length ≤ (f.axisFormat axis).totalDigits) :
    f.unpackDecimal axis (String.ofList (if negative then '-' :: digits else digits)) =
      .ok ⟨negative, coefficient f.zeros (f.axisFormat axis).totalDigits digits,
        (f.axisFormat axis).decimalDigits⟩ := by
  have hsign : splitSign (String.ofList (if negative then '-' :: digits else digits)).toList =
      (negative, digits) := by
    rw [String.toList_ofList]
    cases negative with
    | true => rfl
    | false => exact splitSign_digits hdigits
  rw [unpackDecimal_eq, hsign, if_neg hne, if_neg (by simpa using hdigits),
    if_neg (Nat.not_lt.mpr hlength)]

/-! ### Decimals -/

/-- Packing is refused when whole digits have no room; otherwise it writes the aligned digits
without the zeros that may be omitted. -/
theorem packDecimal_eq (f : CoordinateFormat) (axis : Axis) (d : Decimal) :
    f.packDecimal axis d =
      if (f.axisFormat axis).integerDigits <
          ((Decimal.split d.places d.coefficient).1.dropWhile (· == '0')).length then
        .error (.tooLong (Decimal.fixedText d.places d.coefficient)
          (f.axisFormat axis).integerDigits)
      else
        match omitZeros f.zeros (alignedDigits (f.axisFormat axis).integerDigits d.places
          d.coefficient) with
        | [] => .ok "0"
        | digits => .ok (String.ofList (if d.negative then '-' :: digits else digits)) := rfl

/-- The number of digits before the point, without zeros in front. -/
theorem length_whole (places units : ℕ) :
    ((Decimal.split places units).1.dropWhile (· == '0')).length =
      (Nat.digits 10 (units / 10 ^ places)).length :=
  Digits.length_dropWhile_toDigits (units / 10 ^ places)

/-- **Failure.** A decimal is refused exactly when it has too many digits before the point. -/
theorem packDecimal_eq_error_iff (f : CoordinateFormat) (axis : Axis) (d : Decimal)
    (e : CoordinateError) :
    f.packDecimal axis d = .error e ↔
      (f.axisFormat axis).integerDigits < (Nat.digits 10 (d.coefficient / 10 ^ d.places)).length ∧
      e = .tooLong (Decimal.fixedText d.places d.coefficient)
        (f.axisFormat axis).integerDigits := by
  rw [packDecimal_eq, length_whole]
  split
  · rename_i hlt
    simp only [Except.error.injEq, hlt, true_and]
    exact eq_comm
  · rename_i hge
    simp only [hge, false_and, iff_false]
    split <;> simp

/-- **The round trip of a decimal** with the places of its axis. Only the sign of zero is lost. -/
theorem unpackDecimal_packDecimal (f : CoordinateFormat) (axis : Axis) {d : Decimal}
    {packed : String} (hplaces : d.places = (f.axisFormat axis).decimalDigits)
    (htotal : 0 < (f.axisFormat axis).totalDigits)
    (hpack : f.packDecimal axis d = .ok packed) :
    f.unpackDecimal axis packed =
      .ok ⟨d.negative && d.coefficient != 0, d.coefficient, d.places⟩ := by
  rw [packDecimal_eq] at hpack
  split at hpack
  · cases hpack
  rename_i hfits
  set aligned := alignedDigits (f.axisFormat axis).integerDigits d.places d.coefficient
  have hspells : Nat.ofDigitChars 10 aligned 0 = d.coefficient := ofDigitChars_alignedDigits _ _ _
  have hdigits : ∀ c ∈ aligned, c.isDigit := fun c => isDigit_of_mem_alignedDigits
  have hlength : aligned.length = (f.axisFormat axis).totalDigits := by
    rw [length_alignedDigits (Nat.not_lt.mp hfits), hplaces, AxisFormat.totalDigits]
  have hnil := omitZeros_eq_nil_iff f.zeros hdigits
  rw [hspells] at hnil
  split at hpack
  · -- nothing is left: the decimal is zero and written as a single digit
    rename_i homit
    obtain rfl := Except.ok.inj hpack
    have hzero : d.coefficient = 0 := hnil.mp homit
    have hread := f.unpackDecimal_signed axis false (List.cons_ne_nil '0' []) (by simp) htotal
    have hcoefficient :
        coefficient f.zeros (f.axisFormat axis).totalDigits ['0'] = 0 := by
      cases f.zeros <;> simp [coefficient, Nat.ofDigitChars_cons]
    rw [hcoefficient] at hread
    simpa [hzero, hplaces] using hread
  · rename_i homit
    obtain rfl := Except.ok.inj hpack
    have hne : omitZeros f.zeros aligned ≠ [] := fun h => homit h
    have hzero : d.coefficient ≠ 0 := fun h => hne (hnil.mpr h)
    rw [f.unpackDecimal_signed axis d.negative hne
      (fun c hc => hdigits c (omitZeros_subset _ _ hc))
      (hlength ▸ length_omitZeros_le _ _), ← hlength, coefficient_omitZeros, hspells, ← hplaces]
    simp [hzero]

/-! ### Doubles -/

/-- What packing a double and unpacking it again comes to. The exact value of the double is `x`
and `units` are those of its decimal rounding. -/
structure RoundTrip (f : CoordinateFormat) (axis : Axis) (value : Float) (x : ℚ) (units : ℕ) :
    Prop where
  rounding : Decimal.IsRounding |x| (f.axisFormat axis).decimalDigits units
  /-- What is packed is read back as the rounded number, which is negative only if it is not
  zero. -/
  unpacked (packed : String) : f.pack axis value = .ok packed →
    let d : Decimal := ⟨x < 0 ∧ units ≠ 0, units, (f.axisFormat axis).decimalDigits⟩
    f.unpackDecimal axis packed = .ok d ∧ f.unpack axis packed = .ok (d.toScalar : Float)
  /-- Only a rounded number with too many digits before the point is refused. -/
  refused (e : CoordinateError) : f.pack axis value = .error e ↔
    (f.axisFormat axis).integerDigits <
      (Nat.digits 10 (units / 10 ^ (f.axisFormat axis).decimalDigits)).length ∧
    e = .tooLong (Decimal.fixedText (f.axisFormat axis).decimalDigits units)
      (f.axisFormat axis).integerDigits

/-- **The round trip of a double.** Every finite double is either packed to what is read back as
its decimal rounding, or refused because that has too many digits before the point. -/
theorem unpack_pack (f : CoordinateFormat) (axis : Axis) (value : Float) {x : ℚ}
    (hvalue : (Binary.ofFloat value).toRat? = some x)
    (htotal : 0 < (f.axisFormat axis).totalDigits) :
    ∃ units : ℕ, f.RoundTrip axis value x units := by
  set places := (f.axisFormat axis).decimalDigits with hplaces
  cases hbinary : Binary.ofFloat value with
  | notANumber => simp [hbinary, Binary.toRat?] at hvalue
  | infinite negative => simp [hbinary, Binary.toRat?] at hvalue
  | finite negative significand exponent =>
      rw [hbinary, Binary.toRat?, Option.some.injEq] at hvalue
      set units := Binary.roundedUnits places significand exponent with hunits
      have hpack : f.pack axis value = f.packDecimal axis ⟨negative, units, places⟩ := by
        simp only [pack, hbinary]
        rfl
      have hmagnitude : (0 : ℚ) ≤ significand * 2 ^ exponent := by positivity
      have habs : |x| = significand * 2 ^ exponent := by
        cases negative <;> simp [← hvalue, abs_of_nonneg hmagnitude]
      have hround := Binary.roundedUnits_isRounding places significand exponent
      have hsign : (negative && units != 0) = decide (x < 0 ∧ units ≠ 0) := by
        cases negative with
        | false => simp [← hvalue, not_lt.mpr hmagnitude]
        | true =>
            by_cases hzero : units = 0
            · simp [hzero]
            · have hpos : (0 : ℚ) < significand * 2 ^ exponent := by
                refine lt_of_le_of_ne hmagnitude fun h => hzero ?_
                have hrounding : Decimal.IsRounding (significand * 2 ^ exponent) places 0 := by
                  rw [← h]
                  exact ⟨by simp, fun _ => ⟨0, rfl⟩⟩
                exact hround.unique hrounding
              simp [← hvalue, hzero, hpos]
      refine ⟨units, habs ▸ hround, fun packed h => ?_, fun e => ?_⟩
      · rw [hpack] at h
        have hread := f.unpackDecimal_packDecimal axis (hplaces ▸ rfl) htotal h
        simp only [hsign] at hread
        exact ⟨hread, by rw [unpack, hread]; rfl⟩
      · rw [hpack, packDecimal_eq_error_iff]

/-- A number that is rounded up to one more digit before the point, with trailing zeros left
out: it is packed as `-1` and read back as `-10.0000`. -/
theorem unpack_pack_carry :
    let f : CoordinateFormat := ⟨.trailing, .absolute, ⟨2, 4⟩, ⟨2, 4⟩⟩
    (Binary.ofFloat (-9.99996)).toRat? = some (-1 * (5629477016214983 * 2 ^ (-49 : ℤ))) ∧
      0 < (f.axisFormat .x).totalDigits ∧
      f.pack .x (-9.99996) = .ok "-1" ∧
      f.unpackDecimal .x "-1" = .ok ⟨true, 100000, 4⟩ ∧
      ∃ units : ℕ, f.RoundTrip .x (-9.99996) (-1 * (5629477016214983 * 2 ^ (-49 : ℤ))) units := by
  have hbinary : Binary.ofFloat (-9.99996) = .finite true 5629477016214983 (-49) := by
    decide +kernel
  have hvalue : (Binary.ofFloat (-9.99996)).toRat? =
      some (-1 * (5629477016214983 * 2 ^ (-49 : ℤ))) := by
    rw [hbinary]
    simp [Binary.toRat?]
  refine ⟨hvalue, by decide, ?_, rfl, unpack_pack _ _ _ hvalue (by decide)⟩
  rw [pack, hbinary]
  rfl

end Photoplot.CoordinateFormat
