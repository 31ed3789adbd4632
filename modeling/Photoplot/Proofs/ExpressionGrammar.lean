import Mathlib.Algebra.Group.Nat.Defs
import Mathlib.Data.List.TakeWhile
import Photoplot.Expression.Reader

/-!
# The Grammar of Expressions

Which texts are expressions, and what they stand for, is said by a grammar that mentions no
reader. The reader accepts exactly the texts that the grammar derives, and gives the tree of the
derivation.

## Blank convention

Blanks may stand on both sides of every token and nowhere inside of one (`Spaced`). A text may
thus have several derivations, which differ in the tokens that its blanks are counted to. A reader
skips blanks before it looks at a character, so where it stops is said up to leading blanks.

Between two numbers or variables there is always another token, so the token of a number is the
longest run of its characters without the grammar saying so.

## Main definitions

* `Expression.Derives`: what a text stands for.

## Main results

* `Expression.sound_readSigned`, `Expression.reads_of_derives`: what is read is derived, and what
  is derived is read if nothing follows that would prolong it.
* `Expression.read_eq_ok_iff`: a whole text.
-/

namespace Photoplot.Expression

variable {α : Type}

/-! ### The grammar -/

/-- The two levels at which operands are joined. -/
inductive Level where
  | sum
  | product
deriving DecidableEq, Repr

/-- The kinds of expressions in a text. -/
inductive Symbol where
  | chain (level : Level)
  /-- An atom behind any number of signs. -/
  | signed
  | atom
deriving DecidableEq, Repr

/-- The operands of a sum are products, and those of a product are signed atoms. -/
def Level.operand : Level → Symbol
  | sum => .chain product
  | product => .signed

/-- The characters that join operands. -/
inductive Joins : Level → Char → Operator → Prop
  | plus : Joins .sum '+' .add
  | minus : Joins .sum '-' .subtract
  | smallCross : Joins .product 'x' .multiply
  | capitalCross : Joins .product 'X' .multiply
  | slash : Joins .product '/' .divide

/-- A token with blanks on both sides. -/
def Spaced (token text : List Char) : Prop :=
  ∃ before after, (∀ c ∈ before, isBlank c) ∧ (∀ c ∈ after, isBlank c) ∧
    text = before ++ token ++ after

/-- The token of a number: digits with at most one point before, between or after them. -/
inductive IsNumeral [Scalar α] : List Char → α → Prop
  | whole {digits : List Char} (hne : digits ≠ []) (hdigits : ∀ c ∈ digits, c.isDigit) :
      IsNumeral digits (OfScientific.ofScientific (Nat.ofDigitChars 10 digits 0) true 0)
  | pointed {before after : List Char} (hne : before ++ after ≠ [])
      (hdigits : ∀ c ∈ before ++ after, c.isDigit) :
      IsNumeral (before ++ '.' :: after)
        (OfScientific.ofScientific (Nat.ofDigitChars 10 (before ++ after) 0) true after.length)

/-- What a text may stand for: an expression, or what follows the first operand of a chain. -/
inductive Phrase (α : Type) where
  | expression (symbol : Symbol) (e : Expression α)
  | tail (level : Level) (operands : List (Operator × Expression α))

/-- **The grammar.** A text stands for a phrase. -/
inductive Derives [Scalar α] : List Char → Phrase α → Prop
  /-- An operand that stands alone is no chain. -/
  | single {level : Level} {text : List Char} {e : Expression α} :
      Derives text (.expression level.operand e) → Derives text (.expression (.chain level) e)
  | chain {level : Level} {first rest : List Char} {head : Expression α}
      {tail : List (Operator × Expression α)} :
      Derives first (.expression level.operand head) → Derives rest (.tail level tail) →
      tail ≠ [] → Derives (first ++ rest) (.expression (.chain level) (.chain head tail))
  | nil (level : Level) : Derives [] (.tail level [])
  | cons {level : Level} {c : Char} {operator : Operator} {sign text rest : List Char}
      {operand : Expression α} {tail : List (Operator × Expression α)} :
      Joins level c operator → Spaced [c] sign → Derives text (.expression level.operand operand) →
      Derives rest (.tail level tail) →
      Derives (sign ++ text ++ rest) (.tail level ((operator, operand) :: tail))
  | negate {sign text : List Char} {e : Expression α} :
      Spaced ['-'] sign → Derives text (.expression .signed e) →
      Derives (sign ++ text) (.expression .signed (.negate e))
  | positive {sign text : List Char} {e : Expression α} :
      Spaced ['+'] sign → Derives text (.expression .signed e) →
      Derives (sign ++ text) (.expression .signed (.positive e))
  | unsigned {text : List Char} {e : Expression α} :
      Derives text (.expression .atom e) → Derives text (.expression .signed e)
  | parenthesis {opening text closing : List Char} {e : Expression α} :
      Spaced ['('] opening → Derives text (.expression (.chain .sum) e) → Spaced [')'] closing →
      Derives (opening ++ text ++ closing) (.expression .atom (.parenthesis e))
  | variable {digits text : List Char} :
      digits ≠ [] → (∀ c ∈ digits, c.isDigit) → Nat.ofDigitChars 10 digits 0 < 2 ^ 32 →
      Spaced ('$' :: digits) text →
      Derives text (.expression .atom (.variable (Nat.ofDigitChars 10 digits 0)))
  | number {token text : List Char} {value : α} :
      IsNumeral token value → Spaced token text →
      Derives text (.expression .atom (.constant value))

/-! ### Characters and blanks -/

/-- The reader of operators at a level. -/
def Level.operator : Level → Char → Option Operator
  | sum => additive
  | product => multiplicative

/-- A character is read as an operator of a level exactly when the grammar says so. -/
theorem operator_eq_some_iff {level : Level} {c : Char} {operator : Operator} :
    level.operator c = some operator ↔ Joins level c operator := by
  constructor
  · intro h
    cases level with
    | sum =>
        rw [Level.operator, additive.eq_def] at h
        split at h <;> cases h
        · exact .plus
        · exact .minus
    | product =>
        rw [Level.operator, multiplicative.eq_def] at h
        split at h <;> cases h
        · exact .smallCross
        · exact .capitalCross
        · exact .slash
  · rintro (_ | _ | _ | _ | _) <;> rfl

/-- No character that joins operands is a blank or belongs to a number. -/
theorem Joins.not_isBlank {level : Level} {c : Char} {operator : Operator}
    (h : Joins level c operator) : isBlank c = false ∧ isNumeric c = false := by
  cases h <;> decide

/-- The characters of a number are no blanks. -/
theorem not_isBlank_of_isNumeric {c : Char} (h : isNumeric c) : isBlank c = false := by
  have hrange : c = '.' ∨ 48 ≤ c.toNat ∧ c.toNat ≤ 57 := by
    simp only [isNumeric, Bool.or_eq_true, beq_iff_eq] at h
    refine h.symm.imp_right fun h => ?_
    simp only [Char.isDigit, Bool.and_eq_true, decide_eq_true_eq, ge_iff_le,
      UInt32.le_iff_toNat_le] at h
    exact h
  rcases hrange with rfl | hrange
  · decide
  · refine Bool.eq_false_iff.mpr fun hblank => ?_
    unfold isBlank at hblank
    generalize c.toNat = n at hrange hblank
    simp only [Bool.or_eq_true, Bool.and_eq_true, decide_eq_true_iff,
      Nat.beq_eq_true_eq] at hblank
    omega

/-- Blanks in front of a text are skipped. -/
theorem skipBlanks_append {blanks : List Char} (h : ∀ c ∈ blanks, isBlank c) (text : List Char) :
    skipBlanks (blanks ++ text) = skipBlanks text :=
  List.dropWhile_append_of_pos h

/-- Nothing is skipped in front of what is not blank. -/
theorem skipBlanks_cons {c : Char} (h : isBlank c = false) (text : List Char) :
    skipBlanks (c :: text) = c :: text :=
  List.dropWhile_cons_of_neg (by simp [h])

/-- A text is some blanks and what is left after them. -/
theorem exists_blanks (text : List Char) :
    ∃ blanks, (∀ c ∈ blanks, isBlank c) ∧ text = blanks ++ skipBlanks text :=
  ⟨text.takeWhile isBlank, fun _ => List.mem_takeWhile_imp, List.takeWhile_append_dropWhile.symm⟩

/-- After blanks were skipped there are none to skip. -/
theorem skipBlanks_skipBlanks (text : List Char) :
    skipBlanks (skipBlanks text) = skipBlanks text := by
  obtain ⟨blanks, hblanks, htext⟩ := exists_blanks text
  rw [← skipBlanks_append hblanks (skipBlanks text), ← htext]

/-- Behind the blanks in front of a token there is the token, and behind that only its other
blanks. -/
theorem Spaced.skipBlanks_token {c : Char} {token text : List Char} (h : Spaced (c :: token) text)
    (hc : isBlank c = false) (rest : List Char) :
    ∃ after, (∀ c ∈ after, isBlank c) ∧
      skipBlanks (text ++ rest) = c :: (token ++ (after ++ rest)) := by
  obtain ⟨before, after, hbefore, hafter, rfl⟩ := h
  refine ⟨after, hafter, ?_⟩
  rw [List.append_assoc, List.append_assoc, Expression.skipBlanks_append hbefore]
  exact skipBlanks_cons hc _

/-- Behind a sign there is, up to blanks, what follows it. -/
theorem Spaced.skipBlanks_append {c : Char} {sign : List Char} (h : Spaced [c] sign)
    (hc : isBlank c = false) (text : List Char) :
    ∃ rest, skipBlanks (sign ++ text) = c :: rest ∧ skipBlanks rest = skipBlanks text ∧
      text.length ≤ rest.length := by
  obtain ⟨after, hafter, hskip⟩ := h.skipBlanks_token hc text
  exact ⟨after ++ text, hskip, Expression.skipBlanks_append hafter text, by simp⟩

/-- A token begins with one of its blanks or with itself. -/
theorem Spaced.head {c : Char} {sign : List Char} (h : Spaced [c] sign) (text : List Char) :
    ∀ x ∈ (sign ++ text).head?, x = c ∨ isBlank x := by
  obtain ⟨before, after, hbefore, -, rfl⟩ := h
  intro x hx
  cases before with
  | nil => exact .inl (by simpa using hx.symm)
  | cons b before =>
      obtain rfl : b = x := by simpa using hx
      exact .inr (hbefore b List.mem_cons_self)

/-- A sign among blanks is not empty. -/
theorem Spaced.length_pos {c : Char} {sign : List Char} (h : Spaced [c] sign) :
    0 < sign.length := by
  obtain ⟨before, after, -, -, rfl⟩ := h
  simp only [List.length_append, List.length_cons, List.length_nil]
  omega

/-! ### Numbers and variables -/

/-- The longest front of characters of a kind ends where another character follows. -/
theorem takeWhile_dropWhile_append {p : Char → Bool} {token rest : List Char}
    (htoken : ∀ c ∈ token, p c) (hrest : ∀ c ∈ rest.head?, p c = false) :
    (token ++ rest).takeWhile p = token ∧ (token ++ rest).dropWhile p = rest := by
  rw [List.takeWhile_append_of_pos htoken, List.dropWhile_append_of_pos htoken]
  cases rest with
  | nil => simp
  | cons c rest =>
      have hc : p c = false := hrest c rfl
      simp [hc]

/-- A digit may stand in a number. -/
theorem isNumeric_of_isDigit {c : Char} (h : c.isDigit) : isNumeric c := by
  simp [isNumeric, h]

variable [Scalar α]

/-- Every character of a numeral may stand in a number. -/
theorem IsNumeral.isNumeric {token : List Char} {value : α} (h : IsNumeral token value) :
    ∀ c ∈ token, isNumeric c := by
  cases h with
  | whole _ hdigits => exact fun c hc => isNumeric_of_isDigit (hdigits c hc)
  | pointed _ hdigits =>
      intro c hc
      rcases List.mem_append.mp hc with hc | hc
      · exact isNumeric_of_isDigit (hdigits c (List.mem_append_left _ hc))
      · rcases List.mem_cons.mp hc with rfl | hc
        · decide
        · exact isNumeric_of_isDigit (hdigits c (List.mem_append_right _ hc))

/-- A numeral is not empty. -/
theorem IsNumeral.ne_nil {token : List Char} {value : α} (h : IsNumeral token value) :
    token ≠ [] := by
  cases h with
  | whole hne _ => exact hne
  | pointed => simp

/-- The digits of a number, and the places that follow its point. -/
theorem IsNumeral.parts {token : List Char} {value : α} (h : IsNumeral token value) :
    token.filter Char.isDigit ≠ [] ∧ token.count '.' ≤ 1 ∧
      value = OfScientific.ofScientific (Nat.ofDigitChars 10 (token.filter Char.isDigit) 0) true
        ((token.dropWhile Char.isDigit).length - 1) := by
  have hpoint {digits : List Char} (hdigits : ∀ c ∈ digits, c.isDigit) : digits.count '.' = 0 :=
    List.count_eq_zero.mpr fun hc => absurd (hdigits _ hc) (by decide)
  cases h with
  | whole hne hdigits =>
      rw [List.filter_eq_self.mpr hdigits, List.dropWhile_eq_nil_iff.mpr hdigits, hpoint hdigits]
      exact ⟨hne, by omega, rfl⟩
  | @pointed before after hne hdigits =>
      have hbefore : ∀ c ∈ before, c.isDigit := fun c hc => hdigits c (List.mem_append_left _ hc)
      have hafter : ∀ c ∈ after, c.isDigit := fun c hc => hdigits c (List.mem_append_right _ hc)
      have hfilter : (before ++ '.' :: after).filter Char.isDigit = before ++ after := by
        rw [List.filter_append, List.filter_cons_of_neg (by decide),
          List.filter_eq_self.mpr hbefore, List.filter_eq_self.mpr hafter]
      have hdrop : (before ++ '.' :: after).dropWhile Char.isDigit = '.' :: after := by
        rw [List.dropWhile_append_of_pos hbefore, List.dropWhile_cons_of_neg (by decide)]
      rw [hfilter, hdrop, List.count_append, List.count_cons_self, hpoint hbefore, hpoint hafter]
      exact ⟨hne, by omega, rfl⟩

/-- A numeral is read as its value when nothing follows that would prolong it. -/
theorem readNumber_of_isNumeral {token rest : List Char} {value : α} (h : IsNumeral token value)
    (hrest : ∀ c ∈ rest.head?, isNumeric c = false) :
    readNumber (token ++ rest) = .ok (.constant value, rest) := by
  obtain ⟨htake, hdrop⟩ := takeWhile_dropWhile_append h.isNumeric hrest
  obtain ⟨hdigits, hpoints, rfl⟩ := h.parts
  rw [readNumber, htake, hdrop]
  have hdigits : (token.filter Char.isDigit).isEmpty = false := by simpa using hdigits
  have hpoints : decide (1 < token.count '.') = false := by simpa using hpoints
  simp only [hdigits, hpoints, Bool.or_self, Bool.false_eq_true, if_false]

/-- Digits and at most one point are the token of a number. -/
theorem exists_isNumeral {token : List Char} (hnumeric : ∀ c ∈ token, isNumeric c)
    (hdigits : token.filter Char.isDigit ≠ []) (hpoints : token.count '.' ≤ 1) :
    ∃ value : α, IsNumeral token value := by
  have hsplit : token.takeWhile Char.isDigit ++ token.dropWhile Char.isDigit = token :=
    List.takeWhile_append_dropWhile
  have hbefore : ∀ c ∈ token.takeWhile Char.isDigit, c.isDigit := fun _ => List.mem_takeWhile_imp
  have hhead := List.head?_dropWhile_not Char.isDigit token
  generalize token.takeWhile Char.isDigit = before at hsplit hbefore
  cases hrest : token.dropWhile Char.isDigit with
  | nil =>
      rw [hrest, List.append_nil] at hsplit
      subst hsplit
      refine ⟨_, .whole ?_ hbefore⟩
      rintro rfl
      exact hdigits rfl
  | cons c after =>
      rw [hrest] at hsplit hhead
      subst hsplit
      obtain rfl : c = '.' := by
        have hc := hnumeric c (by simp)
        have hnot : c.isDigit = false := hhead
        simpa [isNumeric, hnot] using hc
      have hafter : ∀ c ∈ after, c.isDigit := by
        intro c hc
        have hne : c ≠ '.' := by
          rintro rfl
          have hpositive := List.count_pos_iff.mpr hc
          rw [List.count_append, List.count_cons_self] at hpoints
          omega
        have hnumber := hnumeric c (by simp [hc])
        simpa [isNumeric, hne] using hnumber
      refine ⟨_, .pointed ?_ fun c hc => (List.mem_append.mp hc).elim (hbefore c) (hafter c)⟩
      intro hnil
      obtain ⟨rfl, rfl⟩ := List.append_eq_nil_iff.mp hnil
      exact hdigits rfl

/-- A number that is read is a token in front of the rest. -/
theorem isNumeral_of_readNumber {text rest : List Char} {e : Expression α}
    (h : readNumber text = .ok (e, rest)) :
    ∃ token value, text = token ++ rest ∧ IsNumeral token value ∧ e = .constant value := by
  have hsplit : text = text.takeWhile isNumeric ++ text.dropWhile isNumeric :=
    List.takeWhile_append_dropWhile.symm
  have hnumeric : ∀ c ∈ text.takeWhile isNumeric, isNumeric c := fun _ => List.mem_takeWhile_imp
  rw [readNumber] at h
  generalize text.takeWhile isNumeric = token at h hsplit hnumeric
  dsimp only at h
  split at h
  · cases h
  · rename_i hfault
    obtain ⟨rfl, rfl⟩ := Prod.mk.inj (Except.ok.inj h)
    have hdigits : token.filter Char.isDigit ≠ [] := fun hnil => hfault (by simp [hnil])
    have hpoints : token.count '.' ≤ 1 := not_lt.mp fun hmore => hfault (by simp [hmore])
    obtain ⟨value, hvalue⟩ := exists_isNumeral (α := α) hnumeric hdigits hpoints
    exact ⟨token, value, hsplit, hvalue, by rw [hvalue.parts.2.2]⟩

omit [Scalar α] in
/-- Digits are read as a variable when its number fits a word and no digit or point follows. -/
theorem readVariable_of_digits {digits rest : List Char} (hne : digits ≠ [])
    (hdigits : ∀ c ∈ digits, c.isDigit) (hfits : Nat.ofDigitChars 10 digits 0 < 2 ^ 32)
    (hrest : ∀ c ∈ rest.head?, isNumeric c = false) :
    readVariable (digits ++ rest) =
      .ok ((.variable (Nat.ofDigitChars 10 digits 0) : Expression α), rest) := by
  have hstop : ∀ c ∈ rest.head?, c.isDigit = false := fun c hc =>
    Bool.eq_false_iff.mpr fun hdigit => by
      simpa [isNumeric_of_isDigit hdigit] using hrest c hc
  obtain ⟨htake, hdrop⟩ := takeWhile_dropWhile_append hdigits hstop
  have hempty : digits.isEmpty = false := by simpa using hne
  have hsmall : ¬ maxVariable < Nat.ofDigitChars 10 digits 0 := by
    rw [maxVariable]
    omega
  rw [readVariable, htake, hdrop]
  simp only [hempty, hsmall, decide_false, Bool.or_self, Bool.false_eq_true, if_false]

omit [Scalar α] in
/-- Only digits whose number fits a word are read as a variable. -/
theorem digits_of_readVariable {text rest : List Char} {e : Expression α}
    (h : readVariable text = .ok (e, rest)) :
    ∃ digits, text = digits ++ rest ∧ digits ≠ [] ∧ (∀ c ∈ digits, c.isDigit) ∧
      Nat.ofDigitChars 10 digits 0 < 2 ^ 32 ∧
      e = .variable (Nat.ofDigitChars 10 digits 0) := by
  have hsplit : text = text.takeWhile Char.isDigit ++ text.dropWhile Char.isDigit :=
    List.takeWhile_append_dropWhile.symm
  have hdigits : ∀ c ∈ text.takeWhile Char.isDigit, c.isDigit := fun _ => List.mem_takeWhile_imp
  rw [readVariable] at h
  generalize text.takeWhile Char.isDigit = digits at h hsplit hdigits
  split at h
  · cases h
  · rename_i hfault
    obtain ⟨rfl, rfl⟩ := Prod.mk.inj (Except.ok.inj h)
    refine ⟨digits, hsplit, fun hnil => hfault (by simp [hnil]), hdigits, ?_, rfl⟩
    refine not_le.mp fun hlarge => hfault ?_
    have hmore : maxVariable < Nat.ofDigitChars 10 digits 0 := by
      rw [maxVariable]
      omega
    simp [hmore]

/-! ### What is read is derived -/

/-- A reader of phrases of a kind: what it takes off the front of a text is such a phrase. -/
def Sound (symbol : Symbol) (reader : Reader α) : Prop :=
  ∀ text e rest, reader text = .ok (e, rest) →
    ∃ front, text = front ++ rest ∧ Derives front (.expression symbol e)

omit [Scalar α] in
/-- One reader after the other. -/
theorem bind_eq_ok {β γ : Type} {x : Except ReadFault β} {f : β → Except ReadFault γ} {c : γ}
    (h : (x >>= f) = .ok c) : ∃ b, x = .ok b ∧ f b = .ok c := by
  cases x with
  | error e => cases h
  | ok b => exact ⟨b, rfl, h⟩

/-- Blanks may follow an expression. -/
theorem Derives.append_blanks {text blanks : List Char} {phrase : Phrase α}
    (h : Derives text phrase) (hblanks : ∀ c ∈ blanks, isBlank c)
    (hphrase : ∀ level, phrase ≠ .tail level []) : Derives (text ++ blanks) phrase := by
  have hspaced {token text : List Char} (h : Spaced token text) :
      Spaced token (text ++ blanks) := by
    obtain ⟨before, after, hbefore, hafter, rfl⟩ := h
    refine ⟨before, after ++ blanks, hbefore, fun c hc => ?_, by simp⟩
    exact (List.mem_append.mp hc).elim (hafter c) (hblanks c)
  induction h with
  | single _ ih => exact .single (ih (by simp))
  | chain hfirst _ hne _ ih =>
      rw [List.append_assoc]
      exact .chain hfirst (ih fun _ h => hne (Phrase.tail.inj h).2) hne
  | nil level => exact absurd rfl (hphrase level)
  | @cons _ _ _ sign text rest _ tail hjoins hsign htext hrest ihtext ihrest =>
      cases tail with
      | nil =>
          -- the blanks belong to the last operand
          cases hrest
          have hlast : sign ++ text ++ [] ++ blanks = sign ++ (text ++ blanks) ++ [] := by simp
          rw [hlast]
          exact .cons hjoins hsign (ihtext (by simp)) (.nil _)
      | cons _ _ =>
          rw [List.append_assoc]
          exact .cons hjoins hsign htext (ihrest (by simp))
  | negate hsign _ ih =>
      rw [List.append_assoc]
      exact .negate hsign (ih (by simp))
  | positive hsign _ ih =>
      rw [List.append_assoc]
      exact .positive hsign (ih (by simp))
  | unsigned _ ih => exact .unsigned (ih (by simp))
  | parenthesis hopening htext hclosing _ =>
      rw [List.append_assoc]
      exact .parenthesis hopening htext (hspaced hclosing)
  | «variable» hne hdigits hfits htext => exact .variable hne hdigits hfits (hspaced htext)
  | number htoken htext => exact .number htoken (hspaced htext)

/-- What follows the first operand of a chain, up to blanks. -/
theorem derives_of_readTail {level : Level} {operand : Reader α}
    (hoperand : Sound level.operand operand) {more : Nat} {text rest : List Char}
    {tail : List (Operator × Expression α)}
    (h : readTail level.operator operand more text = .ok (tail, rest)) :
    ∃ front blanks, text = front ++ blanks ++ rest ∧ (∀ c ∈ blanks, isBlank c) ∧
      Derives front (.tail level tail) := by
  obtain ⟨blanks, hblanks, htext⟩ := exists_blanks text
  induction more generalizing text tail blanks with
  | zero =>
      obtain ⟨rfl, rfl⟩ := Prod.mk.inj (Except.ok.inj h)
      exact ⟨[], blanks, htext, hblanks, .nil level⟩
  | succ more ih =>
      rw [readTail] at h
      split at h
      · rename_i hend
        obtain ⟨rfl, rfl⟩ := Prod.mk.inj (Except.ok.inj h)
        exact ⟨[], blanks, by rw [htext, hend]; simp, hblanks, .nil level⟩
      rename_i c rest' hnext
      split at h
      · obtain ⟨rfl, rfl⟩ := Prod.mk.inj (Except.ok.inj h)
        exact ⟨[], blanks, by rw [htext, hnext]; simp, hblanks, .nil level⟩
      rename_i operator hoperator
      obtain ⟨⟨right, middle⟩, hright, h⟩ := bind_eq_ok h
      obtain ⟨⟨others, last⟩, hothers, h⟩ := bind_eq_ok h
      obtain ⟨rfl, rfl⟩ := Prod.mk.inj (Except.ok.inj h)
      obtain ⟨first, rfl, hfirst⟩ := hoperand _ _ _ hright
      obtain ⟨blanks', hblanks', hmiddle⟩ := exists_blanks middle
      obtain ⟨front, after, rfl, hafter, hfront⟩ := ih hothers blanks' hblanks' hmiddle
      refine ⟨blanks ++ [c] ++ first ++ front, after, ?_, hafter, ?_⟩
      · rw [htext, hnext]
        simp
      · have hsign : Spaced [c] (blanks ++ [c]) := ⟨blanks, [], hblanks, by simp, by simp⟩
        exact .cons (operator_eq_some_iff.mp hoperator) hsign hfirst hfront

/-- A reader of chains is sound when that of their operands is. -/
theorem Sound.joined {level : Level} {operand : Reader α} (h : Sound level.operand operand) :
    Sound (.chain level) (joined level.operator operand) := by
  intro text e rest hread
  obtain ⟨⟨head, middle⟩, hhead, hread⟩ := bind_eq_ok hread
  obtain ⟨⟨tail, last⟩, htail, hread⟩ := bind_eq_ok hread
  obtain ⟨rfl, rfl⟩ := Prod.mk.inj (Except.ok.inj hread)
  obtain ⟨first, rfl, hfirst⟩ := h _ _ _ hhead
  obtain ⟨front, blanks, rfl, hblanks, hfront⟩ := derives_of_readTail h htail
  refine ⟨first ++ front ++ blanks, by simp, ?_⟩
  cases tail with
  | nil =>
      cases hfront
      rw [List.append_nil]
      exact (Derives.single hfirst).append_blanks hblanks (by simp)
  | cons _ _ => exact (Derives.chain hfirst hfront (by simp)).append_blanks hblanks (by simp)

/-- The reader of sums is sound when that of signed operands is. -/
theorem Sound.readSum {signed : Reader α} (h : Sound .signed signed) :
    Sound (.chain .sum) (readSum signed) := by
  have hproduct : Sound Level.sum.operand (Expression.joined Level.product.operator signed) :=
    Sound.joined h
  exact Sound.joined hproduct

/-- **A signed operand that is read is derived.** The induction is on the nesting. -/
theorem sound_readSigned (depth : Nat) : Sound (α := α) .signed (readSigned depth) := by
  induction depth with
  | zero => intro text e rest h; cases h
  | succ depth ih =>
      intro text e rest h
      obtain ⟨blanks, hblanks, htext⟩ := exists_blanks text
      have hspaced (token : List Char) : Spaced token (blanks ++ token) :=
        ⟨blanks, [], hblanks, by simp, by simp⟩
      rw [readSigned] at h
      split at h
      · cases h
      · rename_i after hnext
        obtain ⟨⟨operand, left⟩, hoperand, h⟩ := bind_eq_ok h
        obtain ⟨rfl, rfl⟩ := Prod.mk.inj (Except.ok.inj h)
        obtain ⟨front, rfl, hfront⟩ := ih _ _ _ hoperand
        exact ⟨blanks ++ ['-'] ++ front, by rw [htext, hnext]; simp,
          .negate (hspaced ['-']) hfront⟩
      · rename_i after hnext
        obtain ⟨⟨operand, left⟩, hoperand, h⟩ := bind_eq_ok h
        obtain ⟨rfl, rfl⟩ := Prod.mk.inj (Except.ok.inj h)
        obtain ⟨front, rfl, hfront⟩ := ih _ _ _ hoperand
        exact ⟨blanks ++ ['+'] ++ front, by rw [htext, hnext]; simp,
          .positive (hspaced ['+']) hfront⟩
      · rename_i after hnext
        obtain ⟨⟨inner, left⟩, hinner, h⟩ := bind_eq_ok h
        dsimp only at h
        split at h
        · rename_i last hclosing
          obtain ⟨rfl, rfl⟩ := Prod.mk.inj (Except.ok.inj h)
          obtain ⟨front, rfl, hfront⟩ := ih.readSum _ _ _ hinner
          obtain ⟨blanks', hblanks', hleft⟩ := exists_blanks left
          refine ⟨blanks ++ ['('] ++ front ++ (blanks' ++ [')']), ?_, .unsigned
            (.parenthesis (hspaced ['(']) hfront ⟨blanks', [], hblanks', by simp, by simp⟩)⟩
          rw [htext, hnext, hleft, hclosing]
          simp
        · cases h
      · rename_i after hnext
        obtain ⟨digits, rfl, hne, hdigits, hfits, rfl⟩ := digits_of_readVariable h
        exact ⟨blanks ++ '$' :: digits, by rw [htext, hnext]; simp,
          .unsigned (.variable hne hdigits hfits (hspaced _))⟩
      · rename_i c after _ _ _ _ hnext
        split at h
        · obtain ⟨token, value, htoken, hvalue, rfl⟩ := isNumeral_of_readNumber h
          exact ⟨blanks ++ token, by rw [htext, hnext, htoken]; simp,
            .unsigned (.number hvalue (hspaced _))⟩
        · cases h

/-! ### What is derived is read -/

/-- The reader of expressions of a kind that are nested at most `depth` deep. -/
def Symbol.reader (depth : Nat) : Symbol → Reader α
  | .chain .sum => readSum (readSigned depth)
  | .chain .product => Expression.joined multiplicative (readSigned depth)
  | .signed | .atom => readSigned depth

omit [Scalar α] in
/-- The reader of chains of a level reads operands and joins them. -/
theorem reader_chain [Scalar α] (depth : Nat) (level : Level) :
    (Symbol.chain level).reader (α := α) depth =
      Expression.joined level.operator (level.operand.reader depth) := by
  cases level <;> rfl

/-- The operators that would prolong an expression of a kind. -/
def Symbol.ProlongedBy : Symbol → Level → Prop
  | .chain .sum, _ => True
  | .chain .product, level => level = .product
  | .signed, _ | .atom, _ => False

/-- A text begins with nothing that would prolong an expression of a kind. -/
structure Symbol.Ends (symbol : Symbol) (rest : List Char) : Prop where
  numeric : ∀ c ∈ rest.head?, isNumeric c = false
  joins : ∀ c ∈ (skipBlanks rest).head?, ∀ level, symbol.ProlongedBy level →
    level.operator c = none

omit [Scalar α] in
/-- What prolongs an operand of a chain prolongs the chain, unless it is of the same level. -/
theorem prolongedBy_operand {level other : Level} (h : level.operand.ProlongedBy other) :
    (Symbol.chain level).ProlongedBy other ∧ other ≠ level := by
  cases level with
  | sum =>
      obtain rfl : other = .product := h
      exact ⟨trivial, by simp⟩
  | product => exact h.elim

omit [Scalar α] in
/-- A token ends the expression in front of it, if it does not prolong it. -/
theorem ends_of_spaced {symbol : Symbol} {c : Char} {sign : List Char} (hsign : Spaced [c] sign)
    (hblank : isBlank c = false) (hnumeric : isNumeric c = false)
    (hjoins : ∀ level, symbol.ProlongedBy level → level.operator c = none) (text : List Char) :
    symbol.Ends (sign ++ text) where
  numeric x hx := by
    rcases hsign.head text x hx with rfl | hx
    · exact hnumeric
    · refine Bool.eq_false_iff.mpr fun h => ?_
      rw [not_isBlank_of_isNumeric h] at hx
      cases hx
  joins x hx := by
    obtain ⟨rest, hrest, -⟩ := hsign.skipBlanks_append hblank text
    rw [hrest] at hx
    obtain rfl : c = x := Option.some.inj hx
    exact hjoins

/-- What follows an operand of a chain ends it. -/
theorem ends_operand {level : Level} {text rest : List Char}
    {tail : List (Operator × Expression α)} (h : Derives text (.tail level tail))
    (hrest : (Symbol.chain level).Ends rest) : level.operand.Ends (text ++ rest) := by
  cases h with
  | nil =>
      exact ⟨hrest.numeric, fun c hc other hother =>
        hrest.joins c hc other (prolongedBy_operand hother).1⟩
  | @cons _ c operator sign text' rest' _ _ hjoins hsign _ _ =>
      rw [List.append_assoc, List.append_assoc]
      refine ends_of_spaced hsign hjoins.not_isBlank.1 hjoins.not_isBlank.2
        (fun other hother => ?_) _
      -- an operator belongs to one level only
      cases hsome : other.operator c with
      | none => rfl
      | some operator' =>
          have hne := (prolongedBy_operand hother).2
          have hother' := operator_eq_some_iff.mp hsome
          cases hjoins <;> cases hother' <;> exact absurd rfl hne

/-- A chain has no more operands than characters. -/
theorem length_operands_le {level : Level} {text : List Char}
    {operands : List (Operator × Expression α)} (h : Derives text (.tail level operands)) :
    operands.length ≤ text.length := by
  generalize hphrase : Phrase.tail level operands = phrase at h
  induction h generalizing operands with
  | nil =>
      obtain ⟨-, rfl⟩ := Phrase.tail.inj hphrase
      exact Nat.zero_le _
  | cons _ hsign _ _ _ ih =>
      obtain ⟨rfl, rfl⟩ := Phrase.tail.inj hphrase
      have hpositive := hsign.length_pos
      have hothers := ih rfl
      simp only [List.length_cons, List.length_append]
      omega
  | _ => cases hphrase

/-- There are no more operands than characters that are left for them, blanks in front aside. -/
theorem length_operands_le_skipBlanks {level : Level} {text : List Char}
    {operands : List (Operator × Expression α)} (h : Derives text (.tail level operands))
    (rest : List Char) : operands.length ≤ (skipBlanks (text ++ rest)).length := by
  cases h with
  | nil => exact Nat.zero_le _
  | @cons _ _ _ sign text' rest' _ others hjoins hsign _ hrest =>
      have hothers := length_operands_le hrest
      obtain ⟨left, hleft, -, hlength⟩ :=
        hsign.skipBlanks_append hjoins.not_isBlank.1 (text' ++ rest' ++ rest)
      rw [List.append_assoc, List.append_assoc, ← List.append_assoc text', hleft]
      simp only [List.length_append, List.length_cons] at hlength ⊢
      omega

omit [Scalar α] in
/-- Skipping makes a text no longer. -/
theorem length_skipBlanks_le (text : List Char) : (skipBlanks text).length ≤ text.length :=
  List.length_dropWhile_le _ _

omit [Scalar α] in
/-- No operand is read where the chain ends. -/
theorem readTail_of_ends {level : Level} {input rest : List Char} (operand : Reader α) (more : Nat)
    (hends : (Symbol.chain level).Ends rest) (hinput : skipBlanks input = skipBlanks rest) :
    readTail level.operator operand more input = .ok ([], skipBlanks rest) := by
  cases more with
  | zero => rw [readTail, hinput]
  | succ more =>
      have hown : (Symbol.chain level).ProlongedBy level := by
        cases level <;> trivial
      rw [readTail, hinput]
      cases hrest : skipBlanks rest with
      | nil => rfl
      | cons c left =>
          have hnone := hends.joins c (by rw [hrest]; rfl) level hown
          simp only [hnone]

/-- **What reading makes of a phrase** in front of a rest that does not prolong it. The text is
given up to leading blanks, and so is what is left of it. -/
def Phrase.ReadFrom (text : List Char) : Phrase α → Prop
  | .expression symbol e => ∀ depth input rest, text.length < depth → symbol.Ends rest →
      skipBlanks input = skipBlanks (text ++ rest) →
      ∃ left, symbol.reader depth input = .ok (e, left) ∧ skipBlanks left = skipBlanks rest
  | .tail level operands => ∀ depth more input rest, text.length < depth →
      operands.length ≤ more → (Symbol.chain level).Ends rest →
      skipBlanks input = skipBlanks (text ++ rest) →
      readTail level.operator (level.operand.reader depth) more input =
        .ok (operands, skipBlanks rest)

/-- The first operand of a chain, and then the others. -/
theorem reader_chain_eq_ok {level : Level} {depth : Nat} {input left last : List Char}
    {head : Expression α} {operands : List (Operator × Expression α)}
    (hhead : level.operand.reader depth input = .ok (head, left))
    (htail : readTail level.operator (level.operand.reader depth) left.length left =
      .ok (operands, last)) :
    (Symbol.chain level).reader depth input =
      .ok (if operands.isEmpty then head else .chain head operands, last) := by
  rw [reader_chain, Expression.joined, hhead]
  show (readTail _ _ _ _ >>= _) = _
  rw [htail]
  rfl

/-- A chain is read from its first operand and its tail. -/
theorem readFrom_chain {level : Level} {first text : List Char} {head : Expression α}
    {operands : List (Operator × Expression α)}
    (hfirst : (Phrase.expression level.operand head).ReadFrom first)
    (htail : Derives text (.tail level operands))
    (hrest : (Phrase.tail level operands).ReadFrom text) :
    (Phrase.expression (.chain level)
      (if operands.isEmpty then head else .chain head operands)).ReadFrom (first ++ text) := by
  intro depth input rest hdepth hends hinput
  rw [List.length_append] at hdepth
  rw [List.append_assoc] at hinput
  obtain ⟨left, hhead, hleft⟩ :=
    hfirst depth input (text ++ rest) (by omega) (ends_operand htail hends) hinput
  have hmore : operands.length ≤ left.length := by
    have hlength := length_operands_le_skipBlanks htail rest
    rw [← hleft] at hlength
    exact hlength.trans (length_skipBlanks_le left)
  have hothers := hrest depth left.length left rest (by omega) hmore hends hleft
  exact ⟨skipBlanks rest, reader_chain_eq_ok hhead hothers, skipBlanks_skipBlanks rest⟩

omit [Scalar α] in
/-- Where a symbol ends no number goes on, also after blanks. -/
theorem Symbol.Ends.not_isNumeric {symbol : Symbol} {blanks rest : List Char}
    (h : symbol.Ends rest) (hblanks : ∀ c ∈ blanks, isBlank c) :
    ∀ c ∈ (blanks ++ rest).head?, isNumeric c = false := by
  cases blanks with
  | nil => exact h.numeric
  | cons b blanks =>
      intro c hc
      obtain rfl : b = c := Option.some.inj hc
      refine Bool.eq_false_iff.mpr fun hnumeric => ?_
      have hblank := hblanks b List.mem_cons_self
      rw [not_isBlank_of_isNumeric hnumeric] at hblank
      cases hblank

/-! One step of `readSigned` for each character that it can begin with. -/

/-- A minus sign is read as a negation. -/
theorem readSigned_minus {depth : Nat} {input left last : List Char} {e : Expression α}
    (hinput : skipBlanks input = '-' :: left) (h : readSigned depth left = .ok (e, last)) :
    readSigned (depth + 1) input = .ok (.negate e, last) := by
  rw [readSigned, hinput]
  show (readSigned depth left >>= _) = _
  rw [h]
  rfl

/-- A plus sign is read as itself. -/
theorem readSigned_plus {depth : Nat} {input left last : List Char} {e : Expression α}
    (hinput : skipBlanks input = '+' :: left) (h : readSigned depth left = .ok (e, last)) :
    readSigned (depth + 1) input = .ok (.positive e, last) := by
  rw [readSigned, hinput]
  show (readSigned depth left >>= _) = _
  rw [h]
  rfl

/-- A sum in parentheses is read as such. -/
theorem readSigned_opening {depth : Nat} {input left middle last : List Char} {e : Expression α}
    (hinput : skipBlanks input = '(' :: left)
    (h : readSum (readSigned depth) left = .ok (e, middle))
    (hclosing : skipBlanks middle = ')' :: last) :
    readSigned (depth + 1) input = .ok (.parenthesis e, last) := by
  rw [readSigned, hinput]
  simp only [h, bind, Except.bind, hclosing, pure, Except.pure]

/-- A dollar sign begins a variable. -/
theorem readSigned_dollar {depth : Nat} {input left : List Char}
    (hinput : skipBlanks input = '$' :: left) :
    readSigned (α := α) (depth + 1) input = readVariable left := by
  rw [readSigned, hinput]
  rfl

/-- A digit or a point begins a number. -/
theorem readSigned_numeric {depth : Nat} {input left : List Char} {c : Char}
    (hinput : skipBlanks input = c :: left) (hc : isNumeric c) :
    readSigned (α := α) (depth + 1) input = readNumber (c :: left) := by
  have hsign {sign : Char} (hsign : isNumeric sign = false) : c ≠ sign := by
    rintro rfl
    rw [hsign] at hc
    cases hc
  rw [readSigned, hinput]
  split
  · rename_i h
    cases h
  · rename_i h
    exact absurd (List.cons.inj h).1 (hsign (by decide))
  · rename_i h
    exact absurd (List.cons.inj h).1 (hsign (by decide))
  · rename_i h
    exact absurd (List.cons.inj h).1 (hsign (by decide))
  · rename_i h
    exact absurd (List.cons.inj h).1 (hsign (by decide))
  · rename_i h
    obtain ⟨rfl, rfl⟩ := List.cons.inj h
    rw [if_pos hc]

/-- **What is derived is read.** The induction is on the derivation. -/
theorem reads_of_derives {text : List Char} {phrase : Phrase α} (h : Derives text phrase) :
    phrase.ReadFrom text := by
  induction h with
  | @single level text e hoperand ih =>
      have hnil : (Phrase.tail level ([] : List (Operator × Expression α))).ReadFrom [] :=
        fun depth more input rest _ _ hends hinput => readTail_of_ends _ more hends hinput
      have hchain := readFrom_chain ih (.nil level) hnil
      rwa [List.append_nil] at hchain
  | @chain level first rest head tail _ htail hne ihfirst ihrest =>
      have hchain := readFrom_chain ihfirst htail ihrest
      rwa [List.isEmpty_eq_false_iff.mpr hne] at hchain
  | nil level =>
      intro depth more input rest _ _ hends hinput
      exact readTail_of_ends _ more hends hinput
  | @cons level c operator sign text rest operand others hjoins hsign _ hrest ihtext ihrest =>
      intro depth more input last hdepth hmore hends hinput
      cases more with
      | zero => exact absurd hmore (by simp)
      | succ more =>
          obtain ⟨left, hleft, hskip, -⟩ :=
            hsign.skipBlanks_append hjoins.not_isBlank.1 (text ++ (rest ++ last))
          simp only [List.append_assoc, List.length_append] at hinput hdepth
          obtain ⟨middle, hoperand, hmiddle⟩ :=
            ihtext depth left (rest ++ last) (by omega) (ends_operand hrest hends) hskip
          have hothers := ihrest depth more middle last (by omega)
            (Nat.le_of_succ_le_succ hmore) hends hmiddle
          rw [readTail, hinput, hleft]
          simp only [operator_eq_some_iff.mpr hjoins, hoperand]
          show (readTail _ _ _ _ >>= _) = _
          rw [hothers]
          rfl
  | @negate sign text e hsign _ ih =>
      intro depth input rest hdepth hends hinput
      have hpositive := hsign.length_pos
      rw [List.length_append] at hdepth
      rw [List.append_assoc] at hinput
      obtain ⟨depth, rfl⟩ := Nat.exists_eq_succ_of_ne_zero (Nat.ne_zero_of_lt hdepth)
      obtain ⟨left, hleft, hskip, -⟩ := hsign.skipBlanks_append (by decide) (text ++ rest)
      obtain ⟨last, hlast, hrest⟩ := ih depth left rest (by omega) hends hskip
      exact ⟨last, readSigned_minus (hinput.trans hleft) hlast, hrest⟩
  | @positive sign text e hsign _ ih =>
      intro depth input rest hdepth hends hinput
      have hpositive := hsign.length_pos
      rw [List.length_append] at hdepth
      rw [List.append_assoc] at hinput
      obtain ⟨depth, rfl⟩ := Nat.exists_eq_succ_of_ne_zero (Nat.ne_zero_of_lt hdepth)
      obtain ⟨left, hleft, hskip, -⟩ := hsign.skipBlanks_append (by decide) (text ++ rest)
      obtain ⟨last, hlast, hrest⟩ := ih depth left rest (by omega) hends hskip
      exact ⟨last, readSigned_plus (hinput.trans hleft) hlast, hrest⟩
  | unsigned _ ih =>
      exact fun depth input rest hdepth hends hinput =>
        ih depth input rest hdepth ⟨hends.numeric, fun _ _ _ h => h.elim⟩ hinput
  | @parenthesis opening text closing e hopening _ hclosing ih =>
      intro depth input rest hdepth hends hinput
      have hpositive := hopening.length_pos
      simp only [List.length_append] at hdepth
      simp only [List.append_assoc] at hinput
      obtain ⟨depth, rfl⟩ := Nat.exists_eq_succ_of_ne_zero (Nat.ne_zero_of_lt hdepth)
      obtain ⟨left, hleft, hskip, -⟩ :=
        hopening.skipBlanks_append (by decide) (text ++ (closing ++ rest))
      -- a closing parenthesis prolongs no sum
      have hinner : (Symbol.chain .sum).Ends (closing ++ rest) :=
        ends_of_spaced hclosing (by decide) (by decide) (fun level _ => by cases level <;> rfl) rest
      obtain ⟨middle, hsum, hmiddle⟩ := ih depth left (closing ++ rest) (by omega) hinner hskip
      obtain ⟨last, hlast, hrest, -⟩ := hclosing.skipBlanks_append (by decide) rest
      exact ⟨last, readSigned_opening (hinput.trans hleft) hsum (hmiddle.trans hlast), hrest⟩
  | @«variable» digits text hne hdigits hfits htext =>
      intro depth input rest hdepth hends hinput
      obtain ⟨depth, rfl⟩ := Nat.exists_eq_succ_of_ne_zero (Nat.ne_zero_of_lt hdepth)
      obtain ⟨after, hafter, hleft⟩ := htext.skipBlanks_token (by decide) rest
      refine ⟨after ++ rest, ?_, skipBlanks_append hafter rest⟩
      exact (readSigned_dollar (hinput.trans hleft)).trans
        (readVariable_of_digits hne hdigits hfits (hends.not_isNumeric hafter))
  | @number token text value htoken htext =>
      intro depth input rest hdepth hends hinput
      obtain ⟨depth, rfl⟩ := Nat.exists_eq_succ_of_ne_zero (Nat.ne_zero_of_lt hdepth)
      obtain ⟨c, token, rfl⟩ := List.exists_cons_of_ne_nil htoken.ne_nil
      have hc := htoken.isNumeric c List.mem_cons_self
      obtain ⟨after, hafter, hleft⟩ := htext.skipBlanks_token (not_isBlank_of_isNumeric hc) rest
      refine ⟨after ++ rest, ?_, skipBlanks_append hafter rest⟩
      exact (readSigned_numeric (hinput.trans hleft) hc).trans
        (readNumber_of_isNumeral htoken (hends.not_isNumeric hafter))

/-! ### Whole texts -/

omit [Scalar α] in
/-- Everything ends with the text. -/
theorem ends_nil (symbol : Symbol) : symbol.Ends [] where
  numeric := by simp
  joins := by simp [skipBlanks]

/-- A list of characters is read as an expression exactly when the grammar derives it. -/
theorem readChars_eq_ok_iff {text : List Char} {e : Expression α} :
    readChars text = .ok e ↔ Derives text (.expression (.chain .sum) e) := by
  constructor
  · intro h
    obtain ⟨⟨e', rest⟩, hsum, hrest⟩ := bind_eq_ok h
    obtain ⟨front, rfl, hfront⟩ := (sound_readSigned _).readSum _ _ _ hsum
    obtain ⟨blanks, hblanks, hskip⟩ := exists_blanks rest
    dsimp only at hrest
    split at hrest
    · rename_i hend
      obtain rfl : e' = e := Except.ok.inj hrest
      rw [hend, List.append_nil] at hskip
      rw [hskip]
      exact hfront.append_blanks hblanks (by simp)
    · cases hrest
  · intro h
    obtain ⟨rest, hsum, hrest⟩ := reads_of_derives h (text.length + 1) text [] (by omega)
      (ends_nil _) (by rw [List.append_nil])
    have hread : readSum (readSigned (text.length + 1)) text = .ok (e, rest) := hsum
    rw [readChars, hread]
    simp only [bind, Except.bind, hrest]
    rfl

/-- **The reader accepts exactly the texts of the grammar**, and reads the tree of the
derivation. -/
theorem read_eq_ok_iff (text : String) (e : Expression α) :
    read text = .ok e ↔ Derives text.toList (.expression (.chain .sum) e) := by
  rw [← readChars_eq_ok_iff, read]
  cases readChars (α := α) text.toList with
  | error fault => simp [Except.mapError]
  | ok e' => simp [Except.mapError]

end Photoplot.Expression
