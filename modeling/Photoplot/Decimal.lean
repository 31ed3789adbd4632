/-!
# Decimal Numbers

A coordinate is written as digits with an implied decimal point, so the exact number that it
stands for is a **decimal**: a sign, a coefficient and a number of places. Packing and
unpacking work on decimals; only the last step rounds to a scalar.

## Main definitions

* `Decimal`: sign, coefficient and places, standing for `±coefficient / 10 ^ places`.
* `Decimal.scale`: the power of ten that a number of places divides by.
* `Decimal.fixedText`: the positional text of a coefficient with a given number of places.
* `Decimal.ofPositional`: the decimal that a positional text spells.
* `Decimal.divHalfEven`: a quotient of natural numbers rounded to the nearest, ties to even.
-/

namespace Photoplot

/-- The number `coefficient / 10 ^ places`, negated if `negative`. Zero keeps its sign. -/
structure Decimal where
  negative : Bool
  coefficient : Nat
  places : Nat
deriving DecidableEq, Repr

namespace Decimal

/-- The number of units of the last place in one. -/
def scale (places : Nat) : Nat := Nat.pow 10 places

/-- The digits of `n`, with zeros put in front until there are at least `width` of them. -/
def paddedDigits (width n : Nat) : List Char :=
  let digits := Nat.toDigits 10 n
  List.replicate (width - digits.length) '0' ++ digits

/-- The digits before and after the decimal point of `units / 10 ^ places`. At least one digit
stands before the point and exactly `places` after it. -/
def split (places units : Nat) : List Char × List Char :=
  (Nat.toDigits 10 (units / scale places),
    if places = 0 then [] else paddedDigits places (units % scale places))

/-- A decimal expansion is made of digits. -/
theorem isDigit_of_mem_toDigits {n : Nat} {c : Char} (h : c ∈ Nat.toDigits 10 n) : c.isDigit :=
  Nat.isDigit_of_mem_toDigits (by decide) (by decide) h

/-- An expansion that is padded with zeros is made of digits. -/
theorem isDigit_of_mem_paddedDigits {width n : Nat} {c : Char} (h : c ∈ paddedDigits width n) :
    c.isDigit := by
  rcases List.mem_append.mp h with h | h
  · obtain ⟨-, rfl⟩ := List.mem_replicate.mp h
    decide
  · exact isDigit_of_mem_toDigits h

/-- What stands on either side of the decimal point is made of digits. -/
theorem isDigit_of_mem_split {places units : Nat} {c : Char}
    (h : c ∈ (split places units).1 ∨ c ∈ (split places units).2) : c.isDigit := by
  rcases h with h | h
  · exact isDigit_of_mem_toDigits h
  · simp only [split] at h
    split at h
    · cases h
    · exact isDigit_of_mem_paddedDigits h

/-- The text of `units / 10 ^ places`; there is no point when there are no places. -/
def fixedText (places units : Nat) : String :=
  let (whole, fraction) := split places units
  String.ofList (if fraction.isEmpty then whole else whole ++ '.' :: fraction)

/-- The decimal that a positional text spells: digits, and then perhaps a point with more digits.
Either part may be missing, but not both. -/
def ofPositional (text : List Char) : Option Decimal :=
  let whole := text.takeWhile Char.isDigit
  match text.dropWhile Char.isDigit with
  | [] => if whole.isEmpty then none else some ⟨false, Nat.ofDigitChars 10 whole 0, 0⟩
  | c :: fraction =>
    if c != '.' || !fraction.all Char.isDigit || (whole.isEmpty && fraction.isEmpty) then none
    else some ⟨false, Nat.ofDigitChars 10 (whole ++ fraction) 0, fraction.length⟩

/-- A positional text is made of digits and a point. -/
theorem mem_fixedText {places units : Nat} {c : Char}
    (h : c ∈ (fixedText places units).toList) : c.isDigit ∨ c = '.' := by
  simp only [fixedText, String.toList_ofList] at h
  split at h
  · exact .inl (isDigit_of_mem_split (.inl h))
  · rcases List.mem_append.mp h with h | h
    · exact .inl (isDigit_of_mem_split (.inl h))
    · rcases List.mem_cons.mp h with h | h
      · exact .inr h
      · exact .inl (isDigit_of_mem_split (.inr h))

/-- The quotient rounded to the nearest natural number, a tie going to the even one. -/
def divHalfEven (numerator denominator : Nat) : Nat :=
  let quotient := numerator / denominator
  let excess := 2 * (numerator % denominator)
  if excess < denominator then quotient
  else if denominator < excess then quotient + 1
  else quotient + quotient % 2

end Decimal

end Photoplot
