import Photoplot.Decimal.Binary

/-!
# Shortest Decimal Text

The text of a double has **the fewest digits that read back as the same double**, and among
those of that length it is the one nearest to the value. It is always positional: there is no
exponent, and no fraction is written for an integral value.

The doubles next to a value leave it an interval of numbers that are rounded to it. For one
digit, two digits and so on the two neighbours of the value on that decimal grid are tried; if
any point of the grid lies in the interval, so does one of the two neighbours.

## Main definitions

* `Shortest.digits`: the coefficient and the decimal exponent chosen.
* `Shortest.text`: the positional text of a double.
-/

namespace Photoplot.Shortest

/-- The interval of numbers that are rounded to one double, and the double itself, as
numerators over one common denominator. The ends belong to the interval when the
significand is even. -/
structure Interval where
  low : Nat
  value : Nat
  high : Nat
  denominator : Nat
  closed : Bool

/-- The interval of `significand * 2 ^ exponent`. Below a power of two the doubles lie twice as
dense, so the lower half of the interval is half as wide there. -/
def Interval.of (significand : Nat) (exponent : Int) : Interval :=
  let (numerator, denominator) := Binary.fraction 1 exponent
  let narrow := significand = Binary.hiddenBit ∧ -1074 < exponent
  { low := (4 * significand - (if narrow then 1 else 2)) * numerator
    value := 4 * significand * numerator
    high := (4 * significand + 2) * numerator
    denominator := 4 * denominator
    closed := significand % 2 == 0 }

/-- Whether `coefficient * 10 ^ exponent` lies in the interval. -/
def Interval.holds (i : Interval) (coefficient : Nat) (exponent : Int) : Bool :=
  let (lhs, scale) :=
    match exponent with
    | .ofNat e => (coefficient * Decimal.scale e * i.denominator, 1)
    | .negSucc e => (coefficient * i.denominator, Decimal.scale (e + 1))
  if i.closed then decide (i.low * scale ≤ lhs ∧ lhs ≤ i.high * scale)
  else decide (i.low * scale < lhs ∧ lhs < i.high * scale)

/-- The neighbours of the value on the grid of multiples of `10 ^ exponent`: the coefficient
below or at the value, and whether the next one is at least as near. -/
def Interval.below (i : Interval) (exponent : Int) : Nat × Bool :=
  let (numerator, denominator) :=
    match exponent with
    | .ofNat e => (i.value, i.denominator * Decimal.scale e)
    | .negSucc e => (i.value * Decimal.scale (e + 1), i.denominator)
  (numerator / denominator, denominator ≤ 2 * (numerator % denominator))

/-- The nearest point of one grid that lies in the interval, if there is one. -/
def Interval.pick (i : Interval) (exponent : Int) : Option Nat :=
  let (coefficient, upper) := i.below exponent
  let (first, second) :=
    if upper then (coefficient + 1, coefficient) else (coefficient, coefficient + 1)
  if i.holds first exponent then some first
  else if i.holds second exponent then some second
  else none

/-- Tries the grid of `10 ^ exponent` and then finer ones, one more digit at a time. -/
def Interval.search (i : Interval) : Nat → Int → Nat × Int
  | 0, exponent => ((i.below exponent).1, exponent)
  | more + 1, exponent =>
    match i.pick exponent with
    | some coefficient => (coefficient, exponent)
    | none => i.search more (exponent - 1)

/-- The number of decimal digits of the integral part of `numerator / denominator`, or minus
the number of zeros that follow the point. -/
def leadingPosition (numerator denominator : Nat) : Int :=
  if denominator ≤ numerator then ((Nat.toDigits 10 (numerator / denominator)).length : Int)
  else 1 - ((Nat.toDigits 10 ((denominator - 1) / numerator)).length : Int)

/-- The coefficient and the decimal exponent of the shortest decimal that reads back as
`significand * 2 ^ exponent`. Seventeen digits always do. -/
def digits (significand : Nat) (exponent : Int) : Nat × Int :=
  let i := Interval.of significand exponent
  i.search 20 (leadingPosition i.value i.denominator)

/-- Removes the zeros at the end of a coefficient, at most as many as it has places. -/
def trim (coefficient : Nat) : Nat → Nat × Nat
  | 0 => (coefficient, 0)
  | places + 1 =>
    if coefficient % 10 = 0 then trim (coefficient / 10) places else (coefficient, places + 1)

/-- `coefficient * 10 ^ exponent` with a point only where a fraction follows. -/
def positional (coefficient : Nat) (exponent : Int) : String :=
  match exponent with
  | .ofNat e => Decimal.fixedText 0 (coefficient * Decimal.scale e)
  | .negSucc e =>
    let (coefficient, places) := trim coefficient (e + 1)
    Decimal.fixedText places coefficient

/-- The text of a double; a minus sign stands also before the negative zero. -/
def text (x : Float) : String :=
  match Binary.ofFloat x with
  | .notANumber => "NaN"
  | .infinite negative => if negative then "-inf" else "inf"
  | .finite negative significand exponent =>
    let magnitude :=
      if significand = 0 then "0"
      else
        let (coefficient, e) := digits significand exponent
        positional coefficient e
    if negative then "-" ++ magnitude else magnitude

/-- Positional notation uses digits and the decimal point only. -/
theorem mem_positional {coefficient : Nat} {exponent : Int} {c : Char}
    (h : c ∈ (positional coefficient exponent).toList) : c.isDigit ∨ c = '.' := by
  cases exponent <;> exact Decimal.mem_fixedText h

/-- The text of a double is made of letters, digits, points and minus signs. -/
theorem mem_text {x : Float} {c : Char} (h : c ∈ (text x).toList) :
    c.isAlphanum ∨ c = '.' ∨ c = '-' := by
  have alphanum {c : Char} (hc : c.isDigit ∨ c = '.') : c.isAlphanum ∨ c = '.' ∨ c = '-' :=
    hc.imp (fun hd => by simp [Char.isAlphanum, hd]) .inl
  have word {w : List Char} (hw : w.all Char.isAlphanum) (hc : c ∈ w) :
      c.isAlphanum ∨ c = '.' ∨ c = '-' := .inl (List.all_eq_true.mp hw c hc)
  simp only [text] at h
  split at h
  · exact word (by decide) h
  · split at h
    · rcases List.mem_cons.mp h with rfl | h
      · exact .inr (.inr rfl)
      · exact word (by decide) h
    · exact word (by decide) h
  · rename_i negative significand exponent _
    have magnitude {c : Char} (hc : c ∈ (if significand = 0 then "0" else
        positional (digits significand exponent).1 (digits significand exponent).2).toList) :
        c.isAlphanum ∨ c = '.' ∨ c = '-' := by
      split at hc
      · exact alphanum (.inl (by rw [List.mem_singleton.mp hc]; decide))
      · exact alphanum (mem_positional hc)
    split at h
    · rw [String.toList_append] at h
      rcases List.mem_append.mp h with h | h
      · exact .inr (.inr (List.mem_singleton.mp h))
      · exact magnitude h
    · exact magnitude h

end Photoplot.Shortest
