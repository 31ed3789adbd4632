import Photoplot.Aperture.Primitive
import Photoplot.Proofs.Refinement
import Photoplot.Scalar.Double

/-!
# Constants in Place of Variables

A macro that begins by assigning a constant to a variable comes to the same as the macro that has
the constant in place of the variable, up to the next assignment to it. Both have the same shapes
and the same warnings, or fail with the same error.

## Conventions

* **Scope.** The right side of the next assignment still reads the old value, so the constant is
  put in place there too. Everything after it is left as it is (`ApertureMacro.propagate`).
* **Comparing bindings.** The two bindings differ in the variable until it is assigned again. What
  is compared is the value that each variable reads as (`Bindings.get`), not which of them have
  one: a variable that has the value zero cannot be told from one that has none.

## Main definitions

* `Expression.mentions`, `Expression.replace`, `Expression.substitute`.
* `ApertureMacro.propagate`: a body with a constant in place of a variable.
* `Action.Matches`: two actions with the same result and the same warnings.

## Main results

* `Expression.eval_replace`: replacing variables against changing the bindings.
* `Primitive.matches_shapes`: primitives depend on the bindings through their operands only.
* `ApertureMacro.shapes_propagate`: constants may be put in place of variables, and expressions
  depend on their own variables only.
-/

namespace Photoplot

variable {α σ τ β γ : Type}

/-! ### Variables of an expression -/

namespace Expression

mutual

/-- The numbers of the variables in an expression, from left to right. -/
def mentions : Expression α → List Nat
  | .constant _ => []
  | .variable number => [number]
  | .negate operand => operand.mentions
  | .positive operand => operand.mentions
  | .parenthesis operand => operand.mentions
  | .chain head tail => head.mentions ++ mentionsTail tail

/-- The numbers of the variables in the operands of a chain. -/
def mentionsTail : List (Operator × Expression α) → List Nat
  | [] => []
  | (_, operand) :: rest => operand.mentions ++ mentionsTail rest

end

mutual

/-- An expression with others in place of its variables. -/
def replace (f : Nat → Expression α) : Expression α → Expression α
  | .constant value => .constant value
  | .variable number => f number
  | .negate operand => .negate (operand.replace f)
  | .positive operand => .positive (operand.replace f)
  | .parenthesis operand => .parenthesis (operand.replace f)
  | .chain head tail => .chain (head.replace f) (replaceTail f tail)

/-- The operands of a chain with others in place of their variables. -/
def replaceTail (f : Nat → Expression α) :
    List (Operator × Expression α) → List (Operator × Expression α)
  | [] => []
  | (operator, operand) :: rest => (operator, operand.replace f) :: replaceTail f rest

end

/-- An expression with a constant in place of a variable. -/
def substitute (number : Nat) (v : α) (e : Expression α) : Expression α :=
  e.replace fun k => if k = number then .constant v else .variable k

mutual

/-- To replace every variable by itself changes nothing. -/
theorem replace_variable : ∀ e : Expression α, e.replace .variable = e
  | .constant _ => rfl
  | .variable _ => rfl
  | .negate operand => by rw [replace, replace_variable operand]
  | .positive operand => by rw [replace, replace_variable operand]
  | .parenthesis operand => by rw [replace, replace_variable operand]
  | .chain head tail => by rw [replace, replace_variable head, replaceTail_variable tail]

/-- To replace every variable of a chain by itself changes nothing. -/
theorem replaceTail_variable :
    ∀ tail : List (Operator × Expression α), replaceTail .variable tail = tail
  | [] => rfl
  | (_, operand) :: rest => by
      rw [replaceTail, replace_variable operand, replaceTail_variable rest]

end

variable [Scalar α] {f : Nat → Expression α} {b b' : Bindings α}

mutual

/-- **Replacing variables.** If what stands in place of each variable has the value that the
variable has under other bindings, then so has the expression. -/
theorem eval_replace : ∀ e : Expression α,
    (∀ k ∈ e.mentions, (f k).eval b = (Expression.variable k).eval b') →
      (e.replace f).eval b = e.eval b'
  | .constant _, _ => rfl
  | .variable number, h => h number List.mem_cons_self
  | .negate operand, h => by rw [replace, eval, eval, eval_replace operand h]
  | .positive operand, h => by rw [replace, eval, eval, eval_replace operand h]
  | .parenthesis operand, h => by rw [replace, eval, eval, eval_replace operand h]
  | .chain head tail, h => by
      have hhead := eval_replace head fun k hk => h k (List.mem_append_left _ hk)
      have htail left := evalTail_replace left tail fun k hk => h k (List.mem_append_right _ hk)
      rw [replace, eval, eval, hhead, funext htail]

/-- A chain comes to the same when each variable that it mentions is replaced by an expression of
its value. -/
theorem evalTail_replace (left : α) : ∀ tail : List (Operator × Expression α),
    (∀ k ∈ mentionsTail tail, (f k).eval b = (Expression.variable k).eval b') →
      evalTail b left (replaceTail f tail) = evalTail b' left tail
  | [], _ => rfl
  | (operator, operand) :: rest, h => by
      have hoperand := eval_replace operand fun k hk => h k (List.mem_append_left _ hk)
      have hrest left := evalTail_replace left rest fun k hk => h k (List.mem_append_right _ hk)
      rw [replaceTail, evalTail, evalTail, hoperand, funext hrest]

end

/-- An expression depends on the values of its own variables only. -/
theorem eval_congr (e : Expression α) (h : ∀ k ∈ e.mentions, b.get k = b'.get k) :
    e.eval b = e.eval b' := by
  have hreplace : (e.replace .variable).eval b = e.eval b' :=
    eval_replace e fun k hk => by rw [eval, eval, h k hk]
  rwa [replace_variable] at hreplace

end Expression

/-! ### Values of variables -/

namespace Bindings

variable [Scalar α] {n k : Nat} {v w : α} {b b' : Bindings α}

/-- A variable that was bound has its new value, and all others have theirs. -/
theorem get_set (b : Bindings α) (n k : Nat) (v : α) :
    (b.set n v).get k = if k = n then v else b.get k := by
  simp only [get, set, Std.TreeMap.getElem?_insert, Std.compare_eq_iff_eq, eq_comm (a := n)]
  split <;> rfl

/-- A variable without a value reads as zero. -/
theorem get_set_zero (h : b.values[n]? = none) (k : Nat) : (b.set n 0).get k = b.get k := by
  rw [get_set]
  split
  · next hk => rw [hk, get, h]; rfl
  · rfl

/-- Parameters leave variables with lower numbers alone. -/
theorem get_setFrom_of_lt {parameters : List α} (b : Bindings α) (hk : k < n) :
    (b.setFrom n parameters).get k = b.get k := by
  induction parameters generalizing b n with
  | nil => rfl
  | cons first rest ih =>
      rw [setFrom, ih _ (Nat.lt_succ_of_lt hk), get_set, if_neg (Nat.ne_of_lt hk)]

/-- The parameters are the values of the variables from the first one on. -/
theorem get_setFrom {parameters : List α} {i : Nat} (b : Bindings α) (n : Nat)
    (hi : i < parameters.length) : (b.setFrom n parameters).get (n + i) = parameters[i] := by
  induction parameters generalizing b n i with
  | nil => cases hi
  | cons first rest ih =>
      cases i with
      | zero =>
          show ((b.set n first).setFrom (n + 1) rest).get n = first
          rw [get_setFrom_of_lt _ (Nat.lt_add_one n), get_set, if_pos rfl]
      | succ i =>
          have hrest := ih (b.set n first) (n + 1) (Nat.lt_of_succ_lt_succ hi)
          rwa [Nat.add_right_comm] at hrest

/-- The parameters of a macro are its first variables. -/
theorem get_ofParameters {parameters : List α} {i : Nat} (hi : i < parameters.length) :
    (ofParameters parameters).get (i + 1) = parameters[i] := by
  rw [ofParameters, Nat.add_comm, get_setFrom empty 1 hi]

/-- Bindings under which all variables read the same. -/
def Agrees (b b' : Bindings α) : Prop := ∀ k, b.get k = b'.get k

/-- Bindings under which a variable has a given value, and the others read the same. -/
def Fixes (n : Nat) (v : α) (b b' : Bindings α) : Prop :=
  b.get n = v ∧ ∀ k ≠ n, b.get k = b'.get k

/-- Bindings that agree still do after the same assignment. -/
theorem Agrees.set (h : b.Agrees b') : (b.set k w).Agrees (b'.set k w) := by
  intro j
  rw [get_set, get_set, h j]

/-- An assignment fixes its variable. -/
theorem fixes_set (b : Bindings α) : Fixes n v (b.set n v) b :=
  ⟨by rw [get_set, if_pos rfl], fun k hk => by rw [get_set, if_neg hk]⟩

/-- A variable stays fixed when another one is assigned to. -/
theorem Fixes.set (h : Fixes n v b b') (hk : k ≠ n) : Fixes n v (b.set k w) (b'.set k w) := by
  refine ⟨?_, fun j hj => ?_⟩
  · rw [get_set, if_neg hk.symm, h.1]
  · rw [get_set, get_set, h.2 j hj]

/-- Assigning the variable again ends the difference. -/
theorem Fixes.agrees_set (h : Fixes n v b b') : (b.set n w).Agrees (b'.set n w) := by
  intro j
  rw [get_set, get_set]
  split
  · rfl
  · next hj => exact h.2 j hj

/-- Expressions have the same value under bindings that agree. -/
theorem Agrees.eval_eq (h : b.Agrees b') (e : Expression α) : e.eval b = e.eval b' :=
  e.eval_congr fun k _ => h k

/-- A constant in place of a variable that has it as its value. The number zero is no variable,
so it would be wrong to replace it. -/
theorem Fixes.eval_eq (hn : n ≠ 0) (h : Fixes n v b b') (e : Expression α) :
    e.eval b = (e.substitute n v).eval b' := by
  refine (Expression.eval_replace e fun k _ => ?_).symm
  by_cases hk : k = n
  · rw [if_pos hk, hk, Expression.eval, Expression.eval, if_neg hn, h.1]
  · rw [if_neg hk, Expression.eval, Expression.eval, h.2 k hk]

end Bindings

/-! ### Actions with the same outcome -/

namespace Action

variable {P : σ → τ → Prop} {M Q : σ → τ → Prop}

/-- A sequence with all that its parts end with, their warnings too. -/
theorem bind_of_ok {a : Action σ β} {f : β → Action σ γ} {s s' s'' : σ} {x : β}
    {result : Except Error γ} {first rest : List Warning} (ha : a s = ⟨.ok x, s', first⟩)
    (hf : f x s' = ⟨result, s'', rest⟩) : (a >>= f) s = ⟨result, s'', first ++ rest⟩ := by
  show Action.bind a f s = _
  simp only [Action.bind, ha, hf]

/-- A sequence ends with the error of its first action, and with its warnings. -/
theorem bind_of_error {a : Action σ β} {f : β → Action σ γ} {s s' : σ} {e : Error}
    {warnings : List Warning} (ha : a s = ⟨.error e, s', warnings⟩) :
    (a >>= f) s = ⟨.error e, s', warnings⟩ := by
  show Action.bind a f s = _
  simp only [Action.bind, ha]

/-- From related states two actions **match** when they end with the same result and the same
warnings, and in related states unless they fail. -/
def Matches (P : σ → τ → Prop) (a : Action σ β) (b : Action τ β) (Q : σ → τ → Prop) : Prop :=
  ∀ s t, P s t → ∃ result warnings s' t', a s = ⟨result, s', warnings⟩ ∧
    b t = ⟨result, t', warnings⟩ ∧ (result.isOk → Q s' t')

/-- Values that are ready match. -/
theorem Matches.pure (x : β) : Matches P (pure x : Action σ β) (pure x : Action τ β) P :=
  fun s t h => ⟨.ok x, [], s, t, rfl, rfl, fun _ => h⟩

/-- The same warning matches. -/
theorem Matches.warn (w : Warning) :
    Matches P (warn w : Action σ Unit) (warn w : Action τ Unit) P :=
  fun s t h => ⟨.ok (), [w], s, t, rfl, rfl, fun _ => h⟩

/-- Sequences match when their parts do. -/
theorem Matches.bind {a : Action σ β} {b : Action τ β} {f : β → Action σ γ} {g : β → Action τ γ}
    (hab : Matches P a b M) (hfg : ∀ x, Matches M (f x) (g x) Q) :
    Matches P (a >>= f) (b >>= g) Q := by
  intro s t hst
  obtain ⟨result, warnings, s', t', ha, hb, hM⟩ := hab s t hst
  cases result with
  | error e => exact ⟨.error e, warnings, s', t', bind_of_error ha, bind_of_error hb, nofun⟩
  | ok x =>
      obtain ⟨result, rest, s'', t'', hf, hg, hQ⟩ := hfg x s' t' (hM rfl)
      exact ⟨result, warnings ++ rest, s'', t'', bind_of_ok ha hf, bind_of_ok hb hg, hQ⟩

/-- Actions still match when less is asked of the states in the end. -/
theorem Matches.weaken {a : Action σ β} {b : Action τ β} (h : Matches P a b M)
    (himp : ∀ s t, M s t → Q s t) : Matches P a b Q := by
  intro s t hst
  obtain ⟨result, warnings, s', t', ha, hb, hM⟩ := h s t hst
  exact ⟨result, warnings, s', t', ha, hb, fun hok => himp s' t' (hM hok)⟩

/-- Actions that match cannot be told apart when their states are dropped. -/
theorem Matches.inside_eq {ρ : Type} {a : Action σ β} {b : Action τ β} {s : σ} {t : τ}
    (h : Matches P a b Q) (hst : P s t) : (inside s a : Action ρ β) = inside t b := by
  funext r
  obtain ⟨result, warnings, s', t', ha, hb, -⟩ := h s t hst
  rw [inside, inside, ha, hb]

end Action

/-! ### Operands of a primitive -/

/-- A primitive with each operand changed. -/
def Primitive.mapOperands (g : Expression α → Expression α) : Primitive α → Primitive α
  | circle exposure diameter x y rotation =>
    .circle (g exposure) (g diameter) (g x) (g y) (rotation.map g)
  | vectorLine exposure width startX startY endX endY rotation =>
    .vectorLine (g exposure) (g width) (g startX) (g startY) (g endX) (g endY) (g rotation)
  | centerLine exposure width height x y rotation =>
    .centerLine (g exposure) (g width) (g height) (g x) (g y) (g rotation)
  | lowerLeftLine exposure width height x y rotation =>
    .lowerLeftLine (g exposure) (g width) (g height) (g x) (g y) (g rotation)
  | outline exposure points rotation =>
    .outline (g exposure) (points.map fun (x, y) => (g x, g y)) (g rotation)
  | polygon exposure vertices x y diameter rotation =>
    .polygon (g exposure) (g vertices) (g x) (g y) (g diameter) (g rotation)
  | moire x y outerDiameter ringThickness gap maxRings crosshairThickness crosshairLength
      rotation =>
    .moire (g x) (g y) (g outerDiameter) (g ringThickness) (g gap) (g maxRings)
      (g crosshairThickness) (g crosshairLength) (g rotation)
  | thermal x y outerDiameter innerDiameter gap rotation =>
    .thermal (g x) (g y) (g outerDiameter) (g innerDiameter) (g gap) (g rotation)

/-- A primitive with its operands left alone is the same. -/
theorem Primitive.mapOperands_id (p : Primitive α) : p.mapOperands id = p := by
  cases p <;> simp [mapOperands]

/-- A statement with each expression changed. The variable of an assignment stays. -/
def MacroStatement.mapOperands (g : Expression α → Expression α) :
    MacroStatement α → MacroStatement α
  | comment text => .comment text
  | assignment number e => .assignment number (g e)
  | primitive p => .primitive (p.mapOperands g)

/-- A statement with its operands left alone is the same. -/
theorem MacroStatement.mapOperands_id (s : MacroStatement α) : s.mapOperands id = s := by
  cases s with
  | comment text => rfl
  | assignment number e => rfl
  | primitive p => rw [mapOperands, p.mapOperands_id]

/-- Whether a statement is an assignment to a variable. -/
def MacroStatement.assigns (n : Nat) : MacroStatement α → Bool
  | assignment number _ => number == n
  | _ => false

/-- The statements of a macro with a constant in place of a variable, up to and including the right
side of the first assignment to the variable. -/
def ApertureMacro.propagate (n : Nat) (v : α) : List (MacroStatement α) → List (MacroStatement α)
  | [] => []
  | s :: rest =>
    s.mapOperands (·.substitute n v) :: if s.assigns n then rest else propagate n v rest

/-! ### Evaluation under two bindings -/

section Evaluation

variable [Scalar α] {R R' : Bindings α → Bindings α → Prop} {g : Expression α → Expression α}

/-- Changing expressions by `g` makes up for the difference between bindings related by `R`. -/
def Compensates (R : Bindings α → Bindings α → Prop) (g : Expression α → Expression α) : Prop :=
  ∀ e b b', R b b' → e.eval b = (g e).eval b'

section Compensates

variable (hg : Compensates R g)
include hg

/-- An operand has the same value before and after propagation. -/
theorem matches_value (e : Expression α) : Action.Matches R (value e) (value (g e)) R :=
  fun b b' hb => ⟨_, [], b, b', rfl, by rw [hg e b b' hb]; rfl, fun _ => hb⟩

/-- A point has the same value before and after propagation. -/
theorem matches_pointValue (x y : Expression α) :
    Action.Matches R (pointValue x y) (pointValue (g x) (g y)) R :=
  .bind (matches_value hg x) fun _ => .bind (matches_value hg y) fun _ => .pure _

/-- Points have the same values before and after propagation. -/
theorem matches_pointValues (points : List (Expression α × Expression α)) :
    Action.Matches R (pointValues points)
      (pointValues (points.map fun (x, y) => (g x, g y))) R := by
  induction points with
  | nil => exact .pure _
  | cons point rest ih =>
      exact .bind (matches_pointValue hg _ _) fun _ => .bind ih fun _ => .pure _

/-- An exposure has the same value before and after propagation. -/
theorem matches_polarityValue (e : Expression α) :
    Action.Matches R (polarityValue e) (polarityValue (g e)) R :=
  .bind (matches_value hg e) fun _ => .pure _

/-- **Primitives** depend on the bindings through the values of their operands only. -/
theorem Primitive.matches_shapes (name : String) (p : Primitive α) :
    Action.Matches R (p.shapes name) ((p.mapOperands g).shapes name) R := by
  have hvalue := matches_value hg
  have hpoint := matches_pointValue hg
  have hpolarity := matches_polarityValue hg
  cases p with
  | circle exposure diameter x y rotation =>
      have hrest (degrees : α) := Action.Matches.bind (hpoint x y) fun center =>
        .bind (hvalue diameter) fun diameter => .bind (hpolarity exposure) fun polarity =>
          .pure [(⟨.circle (center.rotate degrees) (Scalar.abs diameter), polarity⟩ : Shape α)]
      cases rotation with
      | none => exact .bind (.pure 0) hrest
      | some rotation => exact .bind (hvalue rotation) hrest
  | vectorLine exposure width startX startY endX endY rotation =>
      refine .bind (hpoint _ _) fun start => ?_
      refine .bind (hpoint _ _) fun stop => ?_
      refine .bind (hvalue _) fun width => ?_
      dsimp only
      split
      · exact .bind (.warn _) fun _ => .pure _
      · exact .bind (hvalue _) fun _ => .bind (hpolarity _) fun _ => .pure _
  | centerLine exposure width height x y rotation =>
      exact .bind (hvalue _) fun _ => .bind (hvalue _) fun _ => .bind (hpoint _ _) fun _ =>
        .bind (hvalue _) fun _ => .bind (hpolarity _) fun _ => .pure _
  | lowerLeftLine exposure width height x y rotation =>
      exact .bind (hpoint _ _) fun _ => .bind (hvalue _) fun _ => .bind (hvalue _) fun _ =>
        .bind (hvalue _) fun _ => .bind (hpolarity _) fun _ => .pure _
  | outline exposure points rotation =>
      refine .bind (matches_pointValues hg _) fun points => ?_
      dsimp only
      split
      · exact .bind (.warn _) fun _ => .pure _
      · exact .bind (hvalue _) fun _ => .bind (hpolarity _) fun _ => .pure _
  | polygon exposure vertices x y diameter rotation =>
      exact .bind (hvalue _) fun _ => .bind (hpoint _ _) fun _ => .bind (hvalue _) fun _ =>
        .bind (hvalue _) fun _ => .bind (hpolarity _) fun _ => .pure _
  | moire x y outerDiameter ringThickness gap maxRings barThickness barLength rotation =>
      exact .bind (hvalue _) fun _ => .bind (hpoint _ _) fun _ => .bind (hvalue _) fun _ =>
        .bind (hvalue _) fun _ => .bind (hvalue _) fun _ => .bind (hvalue _) fun _ =>
          .bind (hvalue _) fun _ => .bind (hvalue _) fun _ => .pure _
  | thermal x y outerDiameter innerDiameter gap rotation =>
      refine .bind (hpoint _ _) fun _ => ?_
      refine .bind (hvalue _) fun _ => ?_
      refine .bind (hvalue _) fun _ => ?_
      refine .bind (hvalue _) fun _ => ?_
      refine .bind (hvalue _) fun _ => ?_
      dsimp only
      split
      · exact .bind (.warn _) fun _ => .pure _
      · exact .pure _

/-- An assignment to a variable leads to bindings that are related in another way. -/
theorem MacroStatement.matches_shapes_assignment (name : String) (number : Nat) (e : Expression α)
    (hset : ∀ b b' w, R b b' → R' (b.set number w) (b'.set number w)) :
    Action.Matches R ((assignment number e).shapes name)
      ((assignment number (g e)).shapes name) R' := by
  refine .bind (matches_value hg e) fun w b b' hb => ?_
  by_cases hnumber : number = 0
  · refine ⟨.error (.expression (.invalidVariable number)), [], b, b', ?_, ?_, nofun⟩
    all_goals
      rw [Action.get_bind, Bindings.put, if_pos hnumber]
      rfl
  · refine ⟨.ok [], [], b.set number w, b'.set number w, ?_, ?_, fun _ => hset b b' w hb⟩
    all_goals
      rw [Action.get_bind, Bindings.put, if_neg hnumber]
      rfl

end Compensates

/-- The expressions of a body may be changed by `g` as long as assignments keep bindings related. -/
theorem MacroStatement.matches_shapes (hg : Compensates R g) (name : String) (s : MacroStatement α)
    (hset : ∀ k, s.assigns k = true → ∀ b b' w, R b b' → R (b.set k w) (b'.set k w)) :
    Action.Matches R (s.shapes name) ((s.mapOperands g).shapes name) R := by
  cases s with
  | comment text => exact .pure _
  | assignment number e =>
      exact matches_shapes_assignment hg name number e (hset number (beq_self_eq_true number))
  | primitive p => exact p.matches_shapes hg name

namespace ApertureMacro

open Photoplot.Action

variable {n : Nat} {v : α}

/-- Statements come to the same under bindings that read the same. -/
theorem matches_bodyShapes (name : String) (body : List (MacroStatement α)) :
    Matches Bindings.Agrees (bodyShapes name body) (bodyShapes name body) Bindings.Agrees := by
  induction body with
  | nil => exact .pure _
  | cons s rest ih =>
      have hs := s.matches_shapes (g := id) (fun e _ _ h => Bindings.Agrees.eval_eq h e) name
        fun _ _ _ _ _ => Bindings.Agrees.set
      rw [s.mapOperands_id] at hs
      exact .bind hs fun _ => .bind ih fun _ => .pure _

/-- One statement with the constant in place. Unless it assigns the variable, the bindings still
differ there. -/
theorem matches_shapes_substitute (hn : n ≠ 0) (name : String) (s : MacroStatement α) :
    Matches (Bindings.Fixes n v) (s.shapes name)
      ((s.mapOperands (·.substitute n v)).shapes name)
      (if s.assigns n then Bindings.Agrees else Bindings.Fixes n v) := by
  have hg : Compensates (Bindings.Fixes n v) (·.substitute n v) :=
    fun e _ _ h => h.eval_eq hn e
  split
  · next hassigns =>
      cases s with
      | comment text => cases hassigns
      | assignment number e =>
          obtain rfl : number = n := eq_of_beq hassigns
          exact MacroStatement.matches_shapes_assignment hg name number e
            fun _ _ _ => Bindings.Fixes.agrees_set
      | primitive p => cases hassigns
  · next hassigns =>
      refine s.matches_shapes hg name fun k hk _ _ _ h => h.set ?_
      rintro rfl
      exact hassigns hk

/-- The constant runs along the statements until the variable is assigned again. -/
theorem matches_bodyShapes_propagate (hn : n ≠ 0) (name : String) (body : List (MacroStatement α)) :
    Matches (Bindings.Fixes n v) (bodyShapes name body) (bodyShapes name (propagate n v body))
      fun _ _ => True := by
  induction body with
  | nil => exact fun b b' _ => ⟨.ok [], [], b, b', rfl, rfl, fun _ => trivial⟩
  | cons s rest ih =>
      refine .bind (matches_shapes_substitute hn name s) fun _ => .bind (M := fun _ _ => True) ?_ ?_
      · split
        · exact (matches_bodyShapes name rest).weaken fun _ _ _ => trivial
        · exact ih
      · exact fun others b b' _ => ⟨.ok _, [], b, b', rfl, rfl, fun _ => trivial⟩

/-- A body that begins by assigning a constant is the rest of it under other bindings. -/
theorem bodyShapes_assignment_constant (hn : n ≠ 0) (name : String)
    (body : List (MacroStatement α)) (b : Bindings α) :
    bodyShapes name (.assignment n (.constant v) :: body) b =
      bodyShapes name body (b.set n v) := by
  have hfirst : (MacroStatement.assignment n (.constant v)).shapes name b =
      ⟨.ok [], b.set n v, []⟩ := by
    have hvalue : value (.constant v) b = ⟨.ok v, b, []⟩ := by
      rw [value, Expression.eval]
      rfl
    refine bind_of_ok hvalue ?_
    rw [get_bind, Bindings.put, if_neg hn]
    rfl
  have hrest : (bodyShapes name body >>= fun others => pure ([] ++ others)) (b.set n v) =
      bodyShapes name body (b.set n v) := by simp only [List.nil_append, bind_pure]
  rw [bodyShapes]
  exact bind_of_ok hfirst hrest

/-- **Constants in place of variables.** A macro whose body begins by assigning a constant to a
variable comes to the same as the macro with the constant in place of the variable, up to and
including the right side of the next assignment to it. More generally, an expression depends on
the values of its own variables only, and a variable without a value may as well be zero. -/
theorem shapes_propagate (hn : n ≠ 0) :
    (∀ (name : String) (body : List (MacroStatement α)) (parameters : List α),
      (shapes ⟨name, .assignment n (.constant v) :: body⟩ parameters :
        Action σ (List (Shape α))) = shapes ⟨name, propagate n v body⟩ parameters) ∧
    (∀ (e : Expression α) (b b' : Bindings α), (∀ k ∈ e.mentions, b.get k = b'.get k) →
      e.eval b = e.eval b') ∧
    ∀ (e : Expression α) (b : Bindings α) (k : Nat), b.values[k]? = none →
      e.eval (b.set k 0) = e.eval b := by
  refine ⟨fun name body parameters => ?_, fun e _ _ => e.eval_congr, fun e b k hk => ?_⟩
  · funext s
    have hpropagate := (matches_bodyShapes_propagate (v := v) hn name body).inside_eq (ρ := σ)
      (Bindings.fixes_set (Bindings.ofParameters parameters))
    rw [shapes, shapes, ← hpropagate, inside, inside, bodyShapes_assignment_constant hn]
  · exact e.eval_congr fun j _ => Bindings.get_set_zero hk j

/-- A variable is propagated up to where it is assigned to again. -/
theorem shapes_propagate_redefined :
    (1 : Nat) ≠ 0 ∧
      (shapes ⟨"DISC", [.assignment 1 (.constant 2),
        .primitive (.circle (.constant 1) (.variable 1) (.variable 2) (.constant 0) none),
        .assignment 1 (.chain (.variable 1) [(.multiply, .constant 3)]),
        .primitive (.circle (.constant 1) (.variable 1) (.variable 2) (.constant 0) none)]⟩
          [5, 7] : Action Unit (List (Shape Float))) =
      shapes ⟨"DISC", [
        .primitive (.circle (.constant 1) (.constant 2) (.variable 2) (.constant 0) none),
        .assignment 1 (.chain (.constant 2) [(.multiply, .constant 3)]),
        .primitive (.circle (.constant 1) (.variable 1) (.variable 2) (.constant 0) none)]⟩
          [5, 7] :=
  ⟨Nat.one_ne_zero, (shapes_propagate Nat.one_ne_zero).1 "DISC" _ [5, 7]⟩

/-- **Parameters.** Under given parameters a macro comes to the same as with the value of one of
them in place of its variable. -/
theorem shapes_propagate_parameter {parameters : List α} {i : Nat} (hi : i < parameters.length)
    (name : String) (body : List (MacroStatement α)) :
    (shapes ⟨name, body⟩ parameters : Action σ (List (Shape α))) =
      shapes ⟨name, propagate (i + 1) parameters[i] body⟩ parameters :=
  (matches_bodyShapes_propagate i.succ_ne_zero name body).inside_eq
    ⟨Bindings.get_ofParameters hi, fun _ _ => rfl⟩

end ApertureMacro

end Evaluation

end Photoplot
