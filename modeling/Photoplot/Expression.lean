import Photoplot.Scalar
import Std.Data.TreeMap

/-!
# Macro Expressions

The operands of a macro are arithmetic over constants and the variables `$1`, `$2` and so on.
A chain of operands is folded from the left; that products bind tighter than sums is a matter
of reading, where chains of products stand inside chains of sums.

## Main definitions

* `Expression`: the tree as it is written, with its signs and parentheses.
* `Bindings`: the values of the variables; a variable without a value reads as zero.
* `Expression.eval`: the value of a tree, operands from left to right.
-/

namespace Photoplot

/-- The operators that join the operands of a chain. -/
inductive Operator where
  | add
  | subtract
  | multiply
  | divide
deriving DecidableEq, Repr

/-- An expression as it is written. -/
inductive Expression (α : Type) where
  | constant (value : α)
  /-- A variable by its number. -/
  | variable (number : Nat)
  | negate (operand : Expression α)
  | positive (operand : Expression α)
  | parenthesis (operand : Expression α)
  /-- Operands joined from left to right. -/
  | chain (head : Expression α) (tail : List (Operator × Expression α))

/-- Why an expression cannot be read or has no value. -/
inductive ExpressionError where
  | divisionByZero
  /-- Variables are numbered from one. -/
  | invalidVariable (number : Nat)
  /-- The text is no expression. -/
  | unreadable (text reason : String)
deriving DecidableEq, Repr

/-- The message shown for an expression error. -/
def ExpressionError.message : ExpressionError → String
  | .divisionByZero => "division by zero"
  | .invalidVariable number =>
    s!"invalid variable number: ${number}, variables are numbered from $1"
  | .unreadable text reason => s!"unable to parse expression '{text}': {reason}"

/-- The values of the variables that have one. -/
structure Bindings (α : Type) where
  values : Std.TreeMap Nat α

namespace Bindings

variable {α : Type}

/-- No variable has a value. -/
def empty : Bindings α := ⟨∅⟩

/-- Binds a variable, whatever its number. -/
def set (b : Bindings α) (number : Nat) (value : α) : Bindings α :=
  ⟨b.values.insert number value⟩

/-- Binds parameters to the variables from `number` on. Parameters are numbered without end although
variables are numbered by words of 32 bits: the number that starts over at zero is that of the
parameter in place `2 ^ 32`, and to hold so many values, of eight bytes each, takes 32 gibibytes for
a single aperture. -/
def setFrom (b : Bindings α) (number : Nat) : List α → Bindings α
  | [] => b
  | value :: rest => (b.set number value).setFrom (number + 1) rest

/-- Binds parameters to `$1`, `$2` and so on. -/
def ofParameters (parameters : List α) : Bindings α := empty.setFrom 1 parameters

/-- Binds a variable; there is no variable with the number zero. -/
def put (b : Bindings α) (number : Nat) (value : α) : Except ExpressionError (Bindings α) :=
  if number = 0 then .error (.invalidVariable number) else .ok (b.set number value)

/-- The value of a variable, zero if it has none. -/
def get [Scalar α] (b : Bindings α) (number : Nat) : α := b.values[number]?.getD 0

end Bindings

namespace Operator

variable {α : Type} [Scalar α]

/-- Joins two values. A divisor that equals zero is refused. -/
def apply (operator : Operator) (left right : α) : Except ExpressionError α :=
  match operator with
  | .add => .ok (left + right)
  | .subtract => .ok (left - right)
  | .multiply => .ok (left * right)
  | .divide => if right == 0 then .error .divisionByZero else .ok (left / right)

end Operator

namespace Expression

variable {α : Type} [Scalar α]

mutual

/-- The value of an expression. -/
def eval (bindings : Bindings α) : Expression α → Except ExpressionError α
  | .constant value => .ok value
  | .variable number =>
    if number = 0 then .error (.invalidVariable 0) else .ok (bindings.get number)
  | .negate operand => (eval bindings operand).map (- ·)
  | .positive operand => eval bindings operand
  | .parenthesis operand => eval bindings operand
  | .chain head tail => (eval bindings head).bind (evalTail bindings · tail)

/-- Joins the operands of a chain to the value of what stands before them. -/
def evalTail (bindings : Bindings α) (left : α) :
    List (Operator × Expression α) → Except ExpressionError α
  | [] => .ok left
  | (operator, operand) :: rest =>
    (eval bindings operand).bind fun right =>
      (operator.apply left right).bind (evalTail bindings · rest)

end

end Expression

end Photoplot
