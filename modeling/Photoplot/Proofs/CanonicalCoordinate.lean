import Photoplot.Proofs.CoordinateGrammar

/-!
# Canonical Packed Coordinates

Many texts stand for the same coordinate: a plus sign and the zeros that the format implies may be
written or left out, and zero may have either sign. One of these texts is **canonical**, and packing
what was unpacked gives that one. So packing is the inverse of unpacking in this direction too: the
two directions meet in the aligned digits of the decimal, which are the digits of the text with the
implied zeros put back.

## Main definitions

* `Strips`: digits without the zeros at the end where the format leaves them out.
* `Canonical`: the canonical form of a text.

## Main results

* `CoordinateFormat.alignedDigits_coefficient`: aligned digits are digits with zeros put back.
* `CoordinateFormat.packDecimal_congr`, `CoordinateFormat.toRat_eq_of_packDecimal`: decimals are
  packed alike when they stand for the same number, and only then.
* `CoordinateFormat.pack_unpackDecimal`: what is packed is the canonical form, and it names the
  number.
-/

namespace Photoplot

/-! ### Canonical forms -/

/-- Digits are what is kept, and zeros at the end where they are left out. -/
def Strips (digits kept : List Char) : ZeroOmission → Prop
  | .leading => (∃ k, digits = List.replicate k '0' ++ kept) ∧ kept.head? ≠ some '0'
  | .trailing => (∃ k, digits = kept ++ List.replicate k '0') ∧ kept.getLast? ≠ some '0'

/-- The canonical form of a sign and digits: no plus sign, none of the zeros that are implied, and
for zero a single digit. -/
inductive CanonicalDigits (zeros : ZeroOmission) (sign : Sign) (digits : List Char) :
    String → Prop
  | zero (h : ∀ c ∈ digits, c = '0') : CanonicalDigits zeros sign digits "0"
  | nonzero (kept : List Char) (h : ¬ ∀ c ∈ digits, c = '0') (hkept : Strips digits kept zeros) :
      CanonicalDigits zeros sign digits
        (String.ofList (if sign = .minus then '-' :: kept else kept))

/-- **The canonical form** of a text. -/
def Canonical (zeros : ZeroOmission) (raw packed : String) : Prop :=
  ∃ sign digits, Follows raw.toList sign digits ∧ CanonicalDigits zeros sign digits packed

namespace CoordinateFormat

/-- What is left when zeros are left out is what is kept when they are stripped. -/
theorem strips_iff {zeros : ZeroOmission} {digits kept : List Char} :
    Strips digits kept zeros ↔ omitZeros zeros digits = kept := by
  cases zeros with
  | leading =>
      constructor
      · rintro ⟨⟨k, rfl⟩, hhead⟩
        rw [omitZeros, Digits.dropWhile_replicate_append]
        cases kept with
        | nil => rfl
        | cons c kept => exact List.dropWhile_cons_of_neg (by simpa using hhead)
      · rintro rfl
        have hzeros : digits.takeWhile (· == '0') =
            List.replicate (digits.takeWhile (· == '0')).length '0' :=
          List.eq_replicate_iff.mpr ⟨rfl, fun c hc => by simpa using List.mem_takeWhile_imp hc⟩
        refine ⟨⟨(digits.takeWhile (· == '0')).length, ?_⟩, fun hhead => ?_⟩
        · rw [← hzeros]
          exact List.takeWhile_append_dropWhile.symm
        · have hnot := List.head?_dropWhile_not (· == '0') digits
          rw [show digits.dropWhile (· == '0') = omitZeros .leading digits from rfl, hhead] at hnot
          simp at hnot
  | trailing =>
      constructor
      · rintro ⟨⟨k, rfl⟩, hlast⟩
        rw [omitZeros, List.reverse_append, List.reverse_replicate,
          Digits.dropWhile_replicate_append]
        obtain rfl | ⟨init, c, rfl⟩ := List.eq_nil_or_concat' kept
        · rfl
        · rw [List.reverse_append, List.reverse_singleton, List.singleton_append,
            List.dropWhile_cons_of_neg (by simpa using hlast), List.reverse_cons,
            List.reverse_reverse]
      · rintro rfl
        refine ⟨⟨_, (Digits.rdropWhile_append_replicate digits).symm⟩, fun hlast => ?_⟩
        have hnot := List.head?_dropWhile_not (· == '0') digits.reverse
        rw [omitZeros, List.getLast?_reverse] at hlast
        rw [hlast] at hnot
        simp at hnot

/-- What is left of digits, behind a minus sign if there is one; nothing left is zero. -/
def signedText (negative : Bool) (kept : List Char) : String :=
  if kept = [] then "0" else String.ofList (if negative then '-' :: kept else kept)

/-- The canonical text of digits is the one without the zeros that may be omitted. -/
theorem canonicalDigits_iff {zeros : ZeroOmission} {sign : Sign} {digits : List Char}
    (h : ∀ c ∈ digits, c.isDigit) {packed : String} :
    CanonicalDigits zeros sign digits packed ↔
      packed = signedText (decide (sign = .minus)) (omitZeros zeros digits) := by
  have hnil : omitZeros zeros digits = [] ↔ ∀ c ∈ digits, c = '0' :=
    (omitZeros_eq_nil_iff zeros h).trans (Digits.ofDigitChars_eq_zero_iff h)
  simp only [signedText, decide_eq_true_eq]
  by_cases hzero : ∀ c ∈ digits, c = '0'
  · rw [if_pos (hnil.mpr hzero)]
    constructor
    · rintro (_ | ⟨_, hnot, _⟩)
      · rfl
      · exact absurd hzero hnot
    · rintro rfl
      exact .zero hzero
  · rw [if_neg fun homit => hzero (hnil.mp homit)]
    constructor
    · rintro (hall | ⟨kept, -, hkept⟩)
      · exact absurd hall hzero
      · rw [strips_iff.mp hkept]
    · rintro rfl
      exact .nonzero _ hzero (strips_iff.mpr rfl)

/-- The canonical form of a packed coordinate. -/
theorem canonical_iff {format : AxisFormat} {zeros : ZeroOmission} {raw : String} {sign : Sign}
    {digits : List Char} (h : format.Packs raw sign digits) {packed : String} :
    Canonical zeros raw packed ↔
      packed = signedText (decide (sign = .minus)) (omitZeros zeros digits) := by
  have hfollows : Follows raw.toList sign digits := h.text ▸ follows_digits sign h.numeric
  rw [← canonicalDigits_iff h.numeric]
  constructor
  · rintro ⟨sign', digits', hfollows', hcanonical⟩
    obtain ⟨hsign, rfl⟩ := Prod.mk.inj ((splitSign_eq hfollows).symm.trans (splitSign_eq hfollows'))
    rw [canonicalDigits_iff h.numeric] at hcanonical ⊢
    rwa [hsign]
  · exact fun hcanonical => ⟨sign, digits, hfollows, hcanonical⟩

/-! ### Aligned digits -/

/-- Zeros that were restored are omitted again. -/
theorem omitZeros_restoreZeros (zeros : ZeroOmission) (total : ℕ) (digits : List Char) :
    omitZeros zeros (restoreZeros zeros total digits) = omitZeros zeros digits := by
  cases zeros with
  | leading => rw [omitZeros, restoreZeros, Digits.dropWhile_replicate_append, omitZeros]
  | trailing =>
      rw [omitZeros, restoreZeros, List.reverse_append, List.reverse_replicate,
        Digits.dropWhile_replicate_append, omitZeros]

/-- **The aligned digits** of what digits stand for are those digits, with the implied zeros put
back. -/
theorem alignedDigits_coefficient (zeros : ZeroOmission) (format : AxisFormat)
    {digits : List Char} (h : ∀ c ∈ digits, c.isDigit)
    (hlength : digits.length ≤ format.totalDigits) :
    let units := coefficient zeros format.totalDigits digits
    ((Decimal.split format.decimalDigits units).1.dropWhile (· == '0')).length ≤
        format.integerDigits ∧
      alignedDigits format.integerDigits format.decimalDigits units =
        restoreZeros zeros format.totalDigits digits := by
  intro units
  have hrestored : ∀ c ∈ restoreZeros zeros format.totalDigits digits, c.isDigit :=
    fun c => isDigit_of_mem_restoreZeros h
  have hfits : ((Decimal.split format.decimalDigits units).1.dropWhile (· == '0')).length ≤
      format.integerDigits := by
    have hlt := Digits.ofDigitChars_lt hrestored
    rw [ofDigitChars_restoreZeros, length_restoreZeros zeros hlength, AxisFormat.totalDigits,
      pow_add] at hlt
    rw [length_whole, Nat.digits_length_le_iff (by norm_num)]
    exact Nat.div_lt_of_lt_mul (by rwa [Nat.mul_comm] at hlt)
  refine ⟨hfits, Digits.ofDigitChars_inj (fun c => isDigit_of_mem_alignedDigits) hrestored ?_ ?_⟩
  · rw [length_alignedDigits hfits, length_restoreZeros zeros hlength, AxisFormat.totalDigits]
  · rw [ofDigitChars_alignedDigits, ofDigitChars_restoreZeros]

/-- What digits stand for is packed as what is left of them when zeros are left out. -/
theorem packDecimal_coefficient (f : CoordinateFormat) (axis : Axis) (negative : Bool)
    {digits : List Char} (h : ∀ c ∈ digits, c.isDigit)
    (hlength : digits.length ≤ (f.axisFormat axis).totalDigits) :
    f.packDecimal axis ⟨negative, coefficient f.zeros (f.axisFormat axis).totalDigits digits,
        (f.axisFormat axis).decimalDigits⟩ =
      .ok (signedText negative (omitZeros f.zeros digits)) := by
  obtain ⟨hfits, haligned⟩ := alignedDigits_coefficient f.zeros (f.axisFormat axis) h hlength
  rw [packDecimal_eq, if_neg (Nat.not_lt.mpr hfits), haligned, omitZeros_restoreZeros]
  cases omitZeros f.zeros digits <;> rfl

/-! ### Numbers -/

/-- Packing does not see the sign of zero. -/
theorem packDecimal_congr (f : CoordinateFormat) (axis : Axis) {d d' : Decimal}
    (hplaces : d.places = d'.places) (hvalue : d.toRat = d'.toRat) :
    f.packDecimal axis d = f.packDecimal axis d' := by
  obtain ⟨hunits, hsign⟩ := (Decimal.toRat_eq_iff hplaces).mp hvalue
  rw [packDecimal_eq, packDecimal_eq, ← hplaces, ← hunits]
  split
  · rfl
  by_cases hzero : d.coefficient = 0
  · have hnil := (omitZeros_eq_nil_iff f.zeros (fun c => isDigit_of_mem_alignedDigits)).mpr
      ((ofDigitChars_alignedDigits (f.axisFormat axis).integerDigits d.places d.coefficient).trans
        hzero)
    rw [hnil]
  · rw [hsign hzero]

/-- Decimals that are packed alike stand for the same number. -/
theorem toRat_eq_of_packDecimal (f : CoordinateFormat) (axis : Axis) {d d' : Decimal}
    {packed : String} (hplaces : d.places = (f.axisFormat axis).decimalDigits)
    (hplaces' : d'.places = (f.axisFormat axis).decimalDigits)
    (htotal : 0 < (f.axisFormat axis).totalDigits) (h : f.packDecimal axis d = .ok packed)
    (h' : f.packDecimal axis d' = .ok packed) : d.toRat = d'.toRat := by
  have hread := f.unpackDecimal_packDecimal axis hplaces htotal h
  rw [f.unpackDecimal_packDecimal axis hplaces' htotal h', Except.ok.injEq,
    Decimal.mk.injEq] at hread
  obtain ⟨hsign, hunits, -⟩ := hread
  refine (Decimal.toRat_eq_iff (hplaces.trans hplaces'.symm)).mpr ⟨hunits.symm, fun hne => ?_⟩
  have hnonzero : (d.coefficient != 0) = true := by simpa using hne
  rw [hunits, hnonzero, Bool.and_true, Bool.and_true] at hsign
  exact hsign.symm

/-- A double that is exactly a decimal is packed like it. -/
theorem pack_eq_packDecimal (f : CoordinateFormat) (axis : Axis) {d : Decimal} {value : Float}
    (hplaces : d.places = (f.axisFormat axis).decimalDigits)
    (hvalue : (Binary.ofFloat value).toRat? = some d.toRat) :
    f.pack axis value = f.packDecimal axis d := by
  rw [pack]
  cases hbinary : Binary.ofFloat value with
  | notANumber => simp [hbinary, Binary.toRat?] at hvalue
  | infinite negative => simp [hbinary, Binary.toRat?] at hvalue
  | finite negative significand exponent =>
      rw [hbinary, Binary.toRat?, Option.some.injEq] at hvalue
      have hmagnitude : (0 : ℚ) ≤ significand * 2 ^ exponent := by positivity
      have habs : (significand * 2 ^ exponent : ℚ) = d.coefficient / 10 ^ d.places := by
        rw [← Decimal.abs_toRat, ← hvalue, abs_mul, abs_of_nonneg hmagnitude]
        cases negative <;> simp
      have hexact : Decimal.IsRounding (significand * 2 ^ exponent) d.places d.coefficient := by
        rw [habs]
        constructor <;> simp
      have hunits := (Binary.roundedUnits_isRounding d.places significand exponent).unique hexact
      dsimp only
      rw [← hplaces, hunits]
      refine f.packDecimal_congr axis rfl ?_
      rw [Decimal.toRat, ← habs]
      exact hvalue

/-! ### What was unpacked -/

/-- What is unpacked is packed as the canonical form of the text. -/
theorem packDecimal_unpackDecimal (f : CoordinateFormat) (axis : Axis) {raw : String}
    {d : Decimal} (h : f.unpackDecimal axis raw = .ok d) :
    d.places = (f.axisFormat axis).decimalDigits ∧ 0 < (f.axisFormat axis).totalDigits ∧
      ∃ packed, f.packDecimal axis d = .ok packed ∧
        ∀ other, Canonical f.zeros raw other ↔ other = packed := by
  obtain ⟨sign, digits, hpacks, himplies⟩ := (f.unpackDecimal_eq_ok_iff axis raw d).mp h
  have hpacked := f.packDecimal_coefficient axis (decide (sign = .minus)) hpacks.numeric hpacks.fits
  rw [← (f.implies_iff axis sign hpacks.fits d).mp himplies] at hpacked
  exact ⟨himplies.places, hpacks.nonempty.trans hpacks.fits, _, hpacked,
    fun other => canonical_iff hpacks⟩

/-- **Packing what was unpacked** gives the canonical form of the text, from the decimal that was
read as from a double that is exactly this decimal. Two texts are read as the same number if and
only if they have the same canonical form. -/
theorem pack_unpackDecimal (f : CoordinateFormat) (axis : Axis) {raw : String} {d : Decimal}
    (h : f.unpackDecimal axis raw = .ok d) :
    (∃ packed, f.packDecimal axis d = .ok packed ∧
      (∀ value : Float, (Binary.ofFloat value).toRat? = some d.toRat →
        f.pack axis value = .ok packed) ∧
      ∀ other, Canonical f.zeros raw other ↔ other = packed) ∧
    ∀ raw' d', f.unpackDecimal axis raw' = .ok d' →
      (d.toRat = d'.toRat ↔
        ∃ packed, Canonical f.zeros raw packed ∧ Canonical f.zeros raw' packed) := by
  obtain ⟨hplaces, htotal, packed, hpacked, hcanonical⟩ := f.packDecimal_unpackDecimal axis h
  refine ⟨⟨packed, hpacked, fun value hvalue => ?_, hcanonical⟩, fun raw' d' h' => ?_⟩
  · rw [f.pack_eq_packDecimal axis hplaces hvalue, hpacked]
  obtain ⟨hplaces', -, packed', hpacked', hcanonical'⟩ := f.packDecimal_unpackDecimal axis h'
  constructor
  · intro heq
    rw [f.packDecimal_congr axis (hplaces.trans hplaces'.symm) heq, hpacked'] at hpacked
    obtain rfl := Except.ok.inj hpacked
    exact ⟨packed', (hcanonical packed').mpr rfl, (hcanonical' packed').mpr rfl⟩
  · rintro ⟨other, hother, hother'⟩
    obtain rfl := (hcanonical other).mp hother
    obtain rfl := (hcanonical' other).mp hother'
    exact f.toRat_eq_of_packDecimal axis hplaces hplaces' htotal hpacked hpacked'

/-- With trailing zeros left out the canonical form may lose zeros in front of the point: `+0100` in
an axis of two and four digits is one, and so is `01`. -/
theorem pack_unpackDecimal_one :
    let f : CoordinateFormat := ⟨.trailing, .absolute, ⟨2, 4⟩, ⟨2, 4⟩⟩
    f.unpackDecimal .x "+0100" = .ok ⟨false, 10000, 4⟩ ∧ f.pack .x 1 = .ok "01" ∧
      Canonical f.zeros "+0100" "01" ∧ ¬ Canonical f.zeros "+0100" "0100" := by
  intro f
  have hread : f.unpackDecimal .x "+0100" = .ok ⟨false, 10000, 4⟩ := rfl
  obtain ⟨⟨packed, hpacked, hdouble, hcanonical⟩, -⟩ := pack_unpackDecimal f .x hread
  obtain rfl : packed = "01" := (Except.ok.inj hpacked).symm
  have hone : Binary.ofFloat 1 = .finite false 4503599627370496 (-52) := by decide +kernel
  refine ⟨hread, hdouble 1 ?_, (hcanonical "01").mpr rfl, fun h => ?_⟩
  · rw [hone]
    norm_num [Binary.toRat?, Decimal.toRat]
  · exact absurd ((hcanonical "0100").mp h) (by decide)

end CoordinateFormat

end Photoplot
