import Photoplot.Expression
import Photoplot.Text.Blank

/-!
# Reading Expressions

The grammar, with blanks allowed around every token but not inside a variable or a number:

* a sum is products joined by `+` and `-`;
* a product is signed operands joined by `x`, `X` and `/`;
* a signed operand is an atom behind any number of signs `-` and `+`;
* an atom is a sum in parentheses, a variable `$n`, or a number, the longest run of digits
  and points.

Sums and products are the same construction, `joined`, at two levels. Only signs and
parentheses nest, and each of them takes a character, so the length of the text bounds the
nesting.

## Main definitions

* `Expression.read`: the expression that a whole text stands for, or what is wrong with it.
-/

namespace Photoplot

/-- What stops a reader. -/
inductive ReadFault where
  | trailing (c : Char)
  | missingParenthesis
  | badVariable (digits : List Char)
  | badNumber (digits : List Char)
  | unexpected (c : Char)
  | endOfText
deriving DecidableEq, Repr

/-- The reason shown for a fault. -/
def ReadFault.reason : ReadFault → String
  | .trailing c => s!"unexpected '{c}' after expression"
  | .missingParenthesis => "missing closing parenthesis"
  | .badVariable digits => "bad variable '$" ++ String.ofList digits ++ "'"
  | .badNumber digits => "bad number '" ++ String.ofList digits ++ "'"
  | .unexpected c => s!"unexpected '{c}'"
  | .endOfText => "unexpected end of expression"

namespace Expression

variable {α : Type}

/-- A reader finds an expression at the front of a text and leaves the rest of the text. -/
abbrev Reader (α : Type) := List Char → Except ReadFault (Expression α × List Char)

/-! ### Leaves -/

/-- The operators of a sum. -/
def additive : Char → Option Operator
  | '+' => some .add
  | '-' => some .subtract
  | _ => none

/-- The operators of a product. -/
def multiplicative : Char → Option Operator
  | 'x' | 'X' => some .multiply
  | '/' => some .divide
  | _ => none

/-- The greatest number that a variable may have. -/
def maxVariable : Nat := 0xFFFFFFFF

/-- Reads the digits of a variable. -/
def readVariable : Reader α := fun text =>
  let digits := text.takeWhile Char.isDigit
  let number := Nat.ofDigitChars 10 digits 0
  if digits.isEmpty || maxVariable < number then .error (.badVariable digits)
  else .ok (.variable number, text.dropWhile Char.isDigit)

/-- The characters of a number. -/
def isNumeric (c : Char) : Bool := c.isDigit || c == '.'

/-- Reads a number: at least one digit and at most one point. -/
def readNumber [Scalar α] : Reader α := fun text =>
  let token := text.takeWhile isNumeric
  let digits := token.filter Char.isDigit
  let places := (token.dropWhile Char.isDigit).length - 1
  if digits.isEmpty || 1 < token.count '.' then .error (.badNumber token)
  else
    let coefficient := Nat.ofDigitChars 10 digits 0
    .ok (.constant (OfScientific.ofScientific coefficient true places),
      text.dropWhile isNumeric)

/-! ### Chains -/

/-- Reads the operators and operands that follow an operand, up to the first character that
is no operator of this level. -/
def readTail (operator : Char → Option Operator) (operand : Reader α) :
    Nat → List Char →
      Except ReadFault (List (Operator × Expression α) × List Char)
  | 0, text => .ok ([], skipBlanks text)
  | more + 1, text =>
    match skipBlanks text with
    | [] => .ok ([], [])
    | c :: rest =>
      match operator c with
      | none => .ok ([], c :: rest)
      | some op => do
        let (right, rest) ← operand rest
        let (tail, rest) ← readTail operator operand more rest
        pure ((op, right) :: tail, rest)

/-- Reads operands joined by the operators of one level. An operand that stands alone is no
chain. -/
def joined (operator : Char → Option Operator) (operand : Reader α) : Reader α :=
  fun text => do
    let (head, rest) ← operand text
    let (tail, rest) ← readTail operator operand rest.length rest
    pure (if tail.isEmpty then head else .chain head tail, rest)

/-- Reads a sum whose signed operands are read by `signed`. -/
def readSum (signed : Reader α) : Reader α :=
  joined additive (joined multiplicative signed)

/-- Reads a signed operand that is nested at most `depth` deep. -/
def readSigned [Scalar α] : Nat → List Char → Except ReadFault (Expression α × List Char)
  | 0, _ => .error .endOfText
  | depth + 1, text =>
    match skipBlanks text with
    | [] => .error .endOfText
    | '-' :: rest => do
      let (operand, rest) ← readSigned depth rest
      pure (.negate operand, rest)
    | '+' :: rest => do
      let (operand, rest) ← readSigned depth rest
      pure (.positive operand, rest)
    | '(' :: rest => do
      let (inner, rest) ← readSum (readSigned depth) rest
      match skipBlanks rest with
      | ')' :: rest => pure (.parenthesis inner, rest)
      | _ => .error .missingParenthesis
    | '$' :: rest => readVariable rest
    | c :: rest => if isNumeric c then readNumber (c :: rest) else .error (.unexpected c)

/-- Reads a whole text. -/
def readChars [Scalar α] (text : List Char) : Except ReadFault (Expression α) := do
  let (expression, rest) ← readSum (readSigned (text.length + 1)) text
  match skipBlanks rest with
  | [] => pure expression
  | c :: _ => .error (.trailing c)

/-- The expression that a text stands for. -/
def read [Scalar α] (text : String) : Except ExpressionError (Expression α) :=
  (readChars text.toList).mapError (.unreadable text ·.reason)

end Expression

end Photoplot
