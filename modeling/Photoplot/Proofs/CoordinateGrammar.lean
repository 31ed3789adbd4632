import Photoplot.Proofs.PackedCoordinate

/-!
# The Grammar of Packed Coordinates

A packed coordinate is a sign, which may be missing, and then digits: at least one and at most as
many as the axis has room for. This is all that unpacking accepts, and what is accepted is read as
the number that the format implies. Everything else is refused, for the first of three reasons.

## Sign convention

A sign at the front of a text is always taken as its sign, so what **follows the sign** is
determined (`Follows`). A second sign follows it and is no digit.

## Main definitions

* `Sign`, `Follows`: the sign of a text, and what comes after it.
* `AxisFormat.Packs`: the grammar.
* `CoordinateFormat.Implies`: the decimal that sign and digits stand for.
* `AxisFormat.Refuses`: the reason for which a text is refused.

## Main results

* `CoordinateFormat.unpackDecimal_eq_ok_iff`: exactly the grammar is accepted.
* `CoordinateFormat.unpackDecimal_eq_error_iff`: the rest is refused for the first reason.
* `CoordinateFormat.unpack_grammar`: both, for decimals and for scalars.
-/

namespace Photoplot

/-! ### Signs -/

/-- The sign of a packed coordinate, which may be missing. -/
inductive Sign where
  | none
  | plus
  | minus
deriving DecidableEq, Repr

namespace Sign

/-- A sign as it is written. -/
def chars : Sign → List Char
  | none => []
  | plus => ['+']
  | minus => ['-']

/-- What a sign multiplies by. -/
def factor : Sign → ℚ
  | none | plus => 1
  | minus => -1

end Sign

/-- A text is a sign and what follows it. Only a text that begins with neither sign has none. -/
structure Follows (text : List Char) (sign : Sign) (rest : List Char) : Prop where
  text : text = sign.chars ++ rest
  taken : sign = .none → ∀ c ∈ rest.head?, c ≠ '+' ∧ c ≠ '-'

/-- Digits follow any sign, or none. -/
theorem follows_digits (sign : Sign) {digits : List Char} (h : ∀ c ∈ digits, c.isDigit) :
    Follows (sign.chars ++ digits) sign digits where
  text := rfl
  taken _ c hc := by
    have hdigit : c.isDigit := h c (List.mem_of_mem_head? hc)
    constructor
    · rintro rfl
      exact absurd hdigit (by decide)
    · rintro rfl
      exact absurd hdigit (by decide)

namespace CoordinateFormat

/-- Taking a sign off a text leaves what follows it. -/
theorem splitSign_eq {text rest : List Char} {sign : Sign} (h : Follows text sign rest) :
    splitSign text = (decide (sign = .minus), rest) := by
  obtain ⟨rfl, htaken⟩ := h
  cases sign with
  | minus | plus => rfl
  | none =>
      cases rest with
      | nil => rfl
      | cons c rest =>
          obtain ⟨hplus, hminus⟩ := htaken rfl c rfl
          rw [Sign.chars, List.nil_append, splitSign]
          · rfl
          · rintro _ ⟨rfl, rfl⟩
            exact hminus rfl
          · rintro _ ⟨rfl, rfl⟩
            exact hplus rfl

/-- Every text has a sign or none. -/
theorem exists_follows (text : List Char) : ∃ sign rest, Follows text sign rest := by
  cases text with
  | nil => exact ⟨.none, [], rfl, by simp⟩
  | cons c rest =>
      by_cases hplus : c = '+'
      · exact ⟨.plus, rest, by rw [hplus]; rfl, nofun⟩
      by_cases hminus : c = '-'
      · exact ⟨.minus, rest, by rw [hminus]; rfl, nofun⟩
      · exact ⟨.none, c :: rest, rfl, by rintro - _ ⟨⟩; exact ⟨hplus, hminus⟩⟩

end CoordinateFormat

/-! ### What is accepted -/

/-- **The grammar.** A packed coordinate for an axis is a sign, or none, and then digits. -/
structure AxisFormat.Packs (format : AxisFormat) (raw : String) (sign : Sign)
    (digits : List Char) : Prop where
  text : raw.toList = sign.chars ++ digits
  numeric : ∀ c ∈ digits, c.isDigit
  nonempty : 1 ≤ digits.length
  fits : digits.length ≤ format.totalDigits

namespace CoordinateFormat

/-- The power of ten that the number spelled by `n` digits is multiplied by. -/
def impliedExponent (zeros : ZeroOmission) (format : AxisFormat) (n : ℕ) : ℤ :=
  match zeros with
  | .leading => -format.decimalDigits
  | .trailing => format.integerDigits - n

/-- **The implied value.** The decimal that sign and digits stand for has the places of the axis; a
zero keeps its sign. -/
structure Implies (f : CoordinateFormat) (axis : Axis) (sign : Sign) (digits : List Char)
    (d : Decimal) : Prop where
  value : d.toRat = sign.factor * Nat.ofDigitChars 10 digits 0 *
    10 ^ impliedExponent f.zeros (f.axisFormat axis) digits.length
  negative : d.negative = decide (sign = .minus)
  places : d.places = (f.axisFormat axis).decimalDigits

/-- The coefficient of digits in units of the last place is their implied value. -/
theorem coefficient_div_pow (zeros : ZeroOmission) (format : AxisFormat) {digits : List Char}
    (h : digits.length ≤ format.totalDigits) :
    (coefficient zeros format.totalDigits digits : ℚ) / 10 ^ format.decimalDigits =
      Nat.ofDigitChars 10 digits 0 * 10 ^ impliedExponent zeros format digits.length := by
  cases zeros with
  | leading =>
      rw [impliedExponent, zpow_neg, zpow_natCast, ← div_eq_mul_inv]
      rfl
  | trailing =>
      have hmoved : (format.integerDigits : ℤ) - digits.length =
          ((format.totalDigits - digits.length : ℕ) : ℤ) - format.decimalDigits := by
        rw [AxisFormat.totalDigits] at h ⊢
        omega
      rw [impliedExponent, hmoved, zpow_sub₀ (by norm_num), zpow_natCast, zpow_natCast,
        coefficient, Decimal.scale_eq]
      push_cast
      ring

/-- The decimal that unpacking gives is the only one that is implied. -/
theorem implies_iff (f : CoordinateFormat) (axis : Axis) (sign : Sign) {digits : List Char}
    (h : digits.length ≤ (f.axisFormat axis).totalDigits) (d : Decimal) :
    f.Implies axis sign digits d ↔
      d = ⟨decide (sign = .minus),
        coefficient f.zeros (f.axisFormat axis).totalDigits digits,
        (f.axisFormat axis).decimalDigits⟩ := by
  have hfactor : (if decide (sign = .minus) then -1 else 1 : ℚ) = sign.factor := by
    cases sign <;> rfl
  constructor
  · obtain ⟨negative, units, places⟩ := d
    rintro ⟨hvalue, hnegative, hplaces⟩
    dsimp only at hnegative hplaces
    subst hnegative hplaces
    have hne : sign.factor ≠ 0 := by cases sign <;> norm_num [Sign.factor]
    rw [Decimal.toRat, hfactor, mul_assoc, ← coefficient_div_pow f.zeros _ h,
      mul_right_inj' hne, div_left_inj' (by positivity), Nat.cast_inj] at hvalue
    rw [Decimal.mk.injEq]
    exact ⟨rfl, hvalue, rfl⟩
  · rintro rfl
    refine ⟨?_, rfl, rfl⟩
    rw [Decimal.toRat, hfactor, coefficient_div_pow f.zeros _ h, mul_assoc]

end CoordinateFormat

/-! ### What is refused -/

/-- **The reason** for which a text is refused, of which `rest` follows the sign: nothing does, or
something else than digits, or too many digits, in this order. -/
inductive AxisFormat.Refuses (format : AxisFormat) (raw : String) (rest : List Char) :
    CoordinateError → Prop
  | tooShort (h : rest = []) : Refuses format raw rest (.tooShort raw)
  | invalid (c : Char) (h : c ∈ rest) (hc : ¬ c.isDigit) : Refuses format raw rest (.invalid raw)
  | tooLong (hdigits : ∀ c ∈ rest, c.isDigit) (h : format.totalDigits < rest.length) :
      Refuses format raw rest (.tooLong raw format.totalDigits)

namespace CoordinateFormat

/-- A text is of the grammar or is refused. -/
theorem unpackDecimal_cases (f : CoordinateFormat) (axis : Axis) (raw : String) :
    (∃ sign digits d, (f.axisFormat axis).Packs raw sign digits ∧
        f.Implies axis sign digits d ∧ f.unpackDecimal axis raw = .ok d) ∨
      ∃ sign rest e, Follows raw.toList sign rest ∧ (f.axisFormat axis).Refuses raw rest e ∧
        f.unpackDecimal axis raw = .error e := by
  obtain ⟨sign, rest, hfollows⟩ := exists_follows raw.toList
  rw [unpackDecimal_eq, splitSign_eq hfollows]
  dsimp only
  by_cases hne : rest = []
  · rw [if_pos hne]
    exact .inr ⟨sign, rest, _, hfollows, .tooShort hne, rfl⟩
  by_cases hdigits : ∀ c ∈ rest, c.isDigit
  · rw [if_neg hne, if_neg (by simpa using hdigits)]
    by_cases hlength : (f.axisFormat axis).totalDigits < rest.length
    · rw [if_pos hlength]
      exact .inr ⟨sign, rest, _, hfollows, .tooLong hdigits hlength, rfl⟩
    · rw [if_neg hlength]
      have hfits := Nat.not_lt.mp hlength
      exact .inl ⟨sign, rest, _, ⟨hfollows.text, hdigits, List.length_pos_of_ne_nil hne, hfits⟩,
        (f.implies_iff axis sign hfits _).mpr rfl, rfl⟩
  · rw [if_neg hne, if_pos (by simpa using hdigits)]
    obtain ⟨c, hc⟩ := not_forall.mp hdigits
    obtain ⟨hmem, hnot⟩ := Classical.not_imp.mp hc
    exact .inr ⟨sign, rest, _, hfollows, .invalid c hmem hnot, rfl⟩

/-- **Acceptance.** Unpacking accepts the grammar and nothing else. -/
theorem unpackDecimal_eq_ok_iff (f : CoordinateFormat) (axis : Axis) (raw : String)
    (d : Decimal) :
    f.unpackDecimal axis raw = .ok d ↔
      ∃ sign digits, (f.axisFormat axis).Packs raw sign digits ∧ f.Implies axis sign digits d := by
  constructor
  · intro h
    obtain ⟨sign, digits, d', hpacks, himplies, heq⟩ | ⟨sign, rest, e, -, -, heq⟩ :=
      f.unpackDecimal_cases axis raw
    · obtain rfl : d' = d := Except.ok.inj (heq.symm.trans h)
      exact ⟨sign, digits, hpacks, himplies⟩
    · cases heq.symm.trans h
  · rintro ⟨sign, digits, hpacks, himplies⟩
    have hsplit := splitSign_eq (follows_digits sign hpacks.numeric)
    rw [← hpacks.text] at hsplit
    rw [unpackDecimal_eq, hsplit, if_neg (List.ne_nil_of_length_pos hpacks.nonempty),
      if_neg (by simpa using hpacks.numeric), if_neg (Nat.not_lt.mpr hpacks.fits),
      (f.implies_iff axis sign hpacks.fits d).mp himplies]

/-- **Refusal.** What is no packed coordinate is refused for the first reason. -/
theorem unpackDecimal_eq_error_iff (f : CoordinateFormat) (axis : Axis) (raw : String)
    (e : CoordinateError) :
    f.unpackDecimal axis raw = .error e ↔
      ∃ sign rest, Follows raw.toList sign rest ∧ (f.axisFormat axis).Refuses raw rest e := by
  constructor
  · intro h
    obtain ⟨sign, digits, d, -, -, heq⟩ | ⟨sign, rest, e', hfollows, hrefuses, heq⟩ :=
      f.unpackDecimal_cases axis raw
    · cases heq.symm.trans h
    · obtain rfl : e' = e := Except.error.inj (heq.symm.trans h)
      exact ⟨sign, rest, hfollows, hrefuses⟩
  · rintro ⟨sign, rest, hfollows, hrefuses⟩
    rw [unpackDecimal_eq, splitSign_eq hfollows]
    dsimp only
    cases hrefuses with
    | tooShort h => rw [if_pos h]
    | invalid c hmem hc =>
        have hother : ∃ c ∈ rest, ¬ c.isDigit := ⟨c, hmem, hc⟩
        rw [if_neg (List.ne_nil_of_mem hmem), if_pos (by simpa using hother)]
    | tooLong hdigits hlength =>
        rw [if_neg (List.ne_nil_of_length_pos (Nat.zero_lt_of_lt hlength)),
          if_neg (by simpa using hdigits), if_pos hlength]

/-- **The grammar of packed coordinates.** Unpacking accepts exactly the texts of the grammar, as
the number that they imply; it refuses all others for the first reason, and the number that is
written for an accepted text can always be read. -/
theorem unpack_grammar (f : CoordinateFormat) (axis : Axis) (raw : String) :
    (∀ d, f.unpackDecimal axis raw = .ok d ↔
      ∃ sign digits, (f.axisFormat axis).Packs raw sign digits ∧ f.Implies axis sign digits d) ∧
    (∀ e, f.unpackDecimal axis raw = .error e ↔
      ∃ sign rest, Follows raw.toList sign rest ∧ (f.axisFormat axis).Refuses raw rest e) ∧
    (∀ sign digits, (f.axisFormat axis).Packs raw sign digits →
      (Decimal.ofPositional (pointed (f.axisFormat axis).integerDigits
        (restoreZeros f.zeros (f.axisFormat axis).totalDigits digits))).isSome) ∧
    ∀ {α : Type} [Scalar α],
      (∀ v : α, f.unpack axis raw = .ok v ↔
        ∃ d, f.unpackDecimal axis raw = .ok d ∧ v = d.toScalar) ∧
      ∀ e, f.unpack axis raw = (.error e : Except CoordinateError α) ↔
        f.unpackDecimal axis raw = .error e := by
  refine ⟨f.unpackDecimal_eq_ok_iff axis raw, f.unpackDecimal_eq_error_iff axis raw,
    fun sign digits hpacks => ?_, fun {α} _ => ?_⟩
  · rw [ofPositional_pointed _ fun c => isDigit_of_mem_restoreZeros hpacks.numeric]
    · rfl
    · refine List.ne_nil_of_length_pos ?_
      rw [length_restoreZeros f.zeros hpacks.fits]
      exact hpacks.nonempty.trans hpacks.fits
  · rw [unpack]
    cases f.unpackDecimal axis raw with
    | error e => simp [Except.map]
    | ok d => simp [Except.map, eq_comm]

end CoordinateFormat

end Photoplot
