import Photoplot.Error

/-!
# Actions

An action changes a state, may warn, and ends with a value or an error. **Nothing is undone by
an error:** the changes and the warnings that an action made before it failed stay, because a
run may go on after the failed command.

## Main definitions

* `Step`, `Action`: the outcome of an action, and actions, which form a monad.
* `Action.attempt`: an action whose failure is its value.
* `Action.focus`: an action on a part of the state.
* `Action.inside`: an action on a state of its own.
-/

namespace Photoplot

/-- What an action ends with: its result, the state that it leaves, and its warnings in order. -/
structure Step (σ β : Type) where
  result : Except Error β
  state : σ
  warnings : List Warning

/-- An action on a state. -/
def Action (σ β : Type) := σ → Step σ β

namespace Action

variable {σ τ β γ : Type}

/-- Runs an action. -/
def run (a : Action σ β) (s : σ) : Step σ β := a s

/-- Ends with a value and leaves the state alone. -/
protected def pure (b : β) : Action σ β := fun s => ⟨.ok b, s, []⟩

/-- Goes on with the value of an action, or ends with its error. -/
protected def bind (a : Action σ β) (f : β → Action σ γ) : Action σ γ := fun s =>
  match a s with
  | ⟨.ok b, s, first⟩ =>
    let rest := f b s
    { rest with warnings := first ++ rest.warnings }
  | ⟨.error e, s, warnings⟩ => ⟨.error e, s, warnings⟩

instance : Monad (Action σ) where
  pure := Action.pure
  bind := Action.bind

/-- Fails. -/
def fail (e : Error) : Action σ β := fun s => ⟨.error e, s, []⟩

/-- Ends with a given result. -/
def ofExcept (r : Except Error β) : Action σ β := fun s => ⟨r, s, []⟩

/-- The state. -/
def get : Action σ σ := fun s => ⟨.ok s, s, []⟩

/-- A part of the state. -/
def gets (part : σ → β) : Action σ β := fun s => ⟨.ok (part s), s, []⟩

/-- Changes the state. -/
def modify (f : σ → σ) : Action σ Unit := fun s => ⟨.ok (), f s, []⟩

/-- Warns. -/
def warn (w : Warning) : Action σ Unit := fun s => ⟨.ok (), s, [w]⟩

/-- Runs an action to its end, whichever it is; its result becomes the value. -/
def attempt (a : Action σ β) : Action σ (Except Error β) := fun s =>
  let step := a s
  ⟨.ok step.result, step.state, step.warnings⟩

/-- Runs an action on a part of the state. -/
def focus (part : σ → τ) (put : σ → τ → σ) (a : Action τ β) : Action σ β := fun s =>
  let step := a (part s)
  ⟨step.result, put s step.state, step.warnings⟩

/-- Runs an action on a state of its own, which is dropped afterwards. -/
def inside (t : τ) (a : Action τ β) : Action σ β := fun s =>
  let step := a t
  ⟨step.result, s, step.warnings⟩

/-! ### Laws -/

/-- To map by the identity changes nothing. -/
theorem id_map' (a : Action σ β) : id <$> a = a := by
  funext s
  show Action.bind a Action.pure s = a s
  unfold Action.bind
  rcases h : a s with ⟨_ | _, _, _⟩ <;> simp [Action.pure]

/-- A value that is ready is passed on. -/
theorem pure_bind' (b : β) (f : β → Action σ γ) : (pure b >>= f) = f b := by
  funext s
  show Action.bind (Action.pure b) f s = f b s
  simp [Action.bind, Action.pure]

/-- It does not matter how three actions in a row are grouped, also when one of them fails. -/
theorem bind_assoc' {δ : Type} (a : Action σ β) (f : β → Action σ γ) (g : γ → Action σ δ) :
    (a >>= f >>= g) = a >>= fun b => f b >>= g := by
  funext s
  show Action.bind (Action.bind a f) g s = Action.bind a (fun b => Action.bind (f b) g) s
  unfold Action.bind
  rcases a s with ⟨_ | b, t, first⟩
  · rfl
  · simp only
    rcases f b t with ⟨_ | c, u, second⟩ <;> simp [List.append_assoc]

instance : LawfulMonad (Action σ) :=
  LawfulMonad.mk' (Action σ) id_map' pure_bind' bind_assoc'

end Action

end Photoplot
