import Photoplot.Proofs.Essence
import Photoplot.Proofs.VariantHistory

/-!
# The Layers of Apertures

A layer is a **stencil** if it is the layer of an aperture or a variant of one. The shapes of
stencils come from the templates and macros of a program, and those of all other layers are its
strokes and regions.

A finished library does not tell the layer of an aperture from that of a block, and a name can
stand for one and later for the other. So the composer is run with a **ledger** that notes which
revisions of the library define apertures. What a layer is can then be read off the history of the
library, like the origin of a variant.

## Ledger convention

A revision has as its number how many revisions there were before it. The ledger notes the number
of a definition after the composer has made it, so a definition that fails is not in it.

## Main definitions

* `Library.isStencil`: whether the layer of a name is a stencil.
* `Ledger`, `Ledger.receiver`: a composer with a ledger.
* `stencils`: the stencils of a program.

## Main results

* `Library.isStencil_outline`: what is a stencil does not depend on the items of layers.
* `run_ledger`: forgetting the ledger gives exactly the run of the composer.
-/

namespace Photoplot

variable {α σ τ : Type}

/-! ### Histories -/

/-- What is left of a revision without the items of layers and the polarity of the transform. -/
def Revision.outline : Revision α → Revision α
  | .define l => .define (.empty l.id)
  | .remove id => .remove id
  | .build base t begun _ => .build base { t with polarity := .dark } begun []

namespace Library

section

variable [Legible α]

/-- Whether the layer of a name is the layer of an aperture or a variant of one, by the history of
the library and the numbers of the revisions that define apertures. A variant is what its base was
when it was begun. -/
def isStencil (made : List Nat) : List (Revision α) → LayerId → Bool
  | [], _ => false
  | .define l :: past, id =>
    if l.id = id then made.contains past.length else isStencil made past id
  | .remove other :: past, id => if other = id then false else isStencil made past id
  | .build base t begun _ :: past, id =>
    if base.variant t.tag = id then isStencil made (past.drop (past.length - begun)) base
    else isStencil made past id
termination_by history => history.length
decreasing_by all_goals simp only [List.length_cons, List.length_drop]; omega

variable {made : List Nat} {past : List (Revision α)}

/-- Whether a layer is a stencil does not depend on revisions of other layers. -/
theorem isStencil_of_ne {r : Revision α} {id : LayerId} (h : r.target ≠ id) :
    isStencil made (r :: past) id = isStencil made past id := by
  cases r <;> rw [isStencil] <;> exact if_neg h

/-- A layer that is defined is a stencil if the ledger notes its definition. -/
theorem isStencil_define (l : Layer α) :
    isStencil made (.define l :: past) l.id = made.contains past.length := by
  rw [isStencil, if_pos rfl]

/-- A variant is a stencil if the layer that it was built from was one then. -/
theorem isStencil_build {base : LayerId} {t : Transform α} {items : List (Item α)}
    {start : List (Revision α)} (h : start <:+ past) :
    isStencil made (.build base t start.length items :: past) (base.variant t.tag) =
      isStencil made start base := by
  obtain ⟨recent, rfl⟩ := h
  rw [isStencil, if_pos rfl]
  simp

/-- What is a stencil does not depend on the items of layers. -/
theorem isStencil_outline (history : List (Revision α)) (id : LayerId) :
    isStencil made (history.map Revision.outline) id = isStencil made history id := by
  match history with
  | [] => rfl
  | .define l :: past =>
      rw [List.map_cons, Revision.outline, isStencil, isStencil, List.length_map,
        isStencil_outline past id]
      rfl
  | .remove other :: past =>
      rw [List.map_cons, Revision.outline, isStencil, isStencil, isStencil_outline past id]
  | .build base t begun items :: past =>
      rw [List.map_cons, Revision.outline, isStencil, isStencil, List.length_map, ← List.map_drop,
        isStencil_outline (past.drop _) base, isStencil_outline past id]
      rfl
termination_by history.length
decreasing_by all_goals simp only [List.length_cons, List.length_drop]; omega

/-- The number of a revision that is yet to come does not matter. -/
theorem isStencil_note {number : Nat} (history : List (Revision α)) (h : history.length ≤ number)
    (id : LayerId) : isStencil (number :: made) history id = isStencil made history id := by
  match history with
  | [] => rw [isStencil, isStencil]
  | .define l :: past =>
      have hlt : past.length < number := h
      rw [isStencil, isStencil, isStencil_note past (Nat.le_of_lt hlt) id, List.contains_cons,
        beq_eq_false_iff_ne.mpr (Nat.ne_of_lt hlt), Bool.false_or]
  | .remove other :: past =>
      have hlt : past.length < number := h
      rw [isStencil, isStencil, isStencil_note past (Nat.le_of_lt hlt) id]
  | .build base t begun items :: past =>
      have hlt : past.length < number := h
      have hbegun : (past.drop (past.length - begun)).length ≤ number := by
        rw [List.length_drop]
        omega
      rw [isStencil, isStencil, isStencil_note past (Nat.le_of_lt hlt) id,
        isStencil_note _ hbegun base]
termination_by history.length
decreasing_by all_goals simp only [List.length_cons, List.length_drop]; omega

end

end Library

/-! ### The ledger -/

/-- A receiver for a part of the state. -/
def Receiver.focus (part : σ → τ) (put : σ → τ → σ) (r : Receiver α τ) : Receiver α σ where
  apertureDefined s d := Action.focus part put (r.apertureDefined s d)
  beginBlock s b := Action.focus part put (r.beginBlock s b)
  endBlock s b := Action.focus part put (r.endBlock s b)
  beginStepRepeat s b := Action.focus part put (r.beginStepRepeat s b)
  endStepRepeat s b := Action.focus part put (r.endStepRepeat s b)
  flash s id target center := Action.focus part put (r.flash s id target center)
  drawLine s segment := Action.focus part put (r.drawLine s segment)
  drawArc s segment direction quadrant :=
    Action.focus part put (r.drawArc s segment direction quadrant)
  beginRegion s := Action.focus part put (r.beginRegion s)
  regionLine s segment := Action.focus part put (r.regionLine s segment)
  regionArc s segment direction quadrant :=
    Action.focus part put (r.regionArc s segment direction quadrant)
  flushRegion s := Action.focus part put (r.flushRegion s)
  endRegion s := Action.focus part put (r.endRegion s)
  endOfFile s := Action.focus part put (r.endOfFile s)

/-- A composer with the numbers of the revisions that define apertures. -/
structure Ledger (α : Type) extends Composer α where
  made : List Nat

namespace Ledger

/-- The ledger before the first command. -/
def initial : Ledger α where
  toComposer := .initial
  made := []

/-- Acts on the composer. -/
def onComposer {β : Type} (a : Action (Composer α) β) : Action (Ledger α) β :=
  Action.focus toComposer (fun l c => { l with toComposer := c }) a

/-- Makes a revision and notes its number. -/
def noting (a : Action (Composer α) Unit) : Action (Ledger α) Unit := do
  let number ← Action.gets (·.history.length)
  onComposer a
  Action.modify fun l => { l with made := number :: l.made }

variable [Scalar α] [Legible α]

/-- The callbacks of the composer, with a note of every aperture that is defined. -/
def receiver : Receiver α (Ledger α) :=
  { Composer.receiver.focus toComposer fun l c => { l with toComposer := c } with
    apertureDefined := fun s d => noting (Composer.defineAperture s d) }

omit [Scalar α] [Legible α] in
/-- An action on the composer of a ledger is the action on the composer. -/
theorem refines_onComposer {β : Type} (a : Action (Composer α) β) :
    Action.Refines (fun _ => False) (fun l c => l.toComposer = c) (onComposer a) a
      (fun _ l c => l.toComposer = c) fun l c => l.toComposer = c := by
  refine .of_steps ?_
  rintro l _ rfl
  refine ⟨rfl, ?_⟩
  cases (onComposer a l).result <;> rfl

omit [Scalar α] [Legible α] in
/-- Noting the revision does not change what the composer does. -/
theorem refines_noting (a : Action (Composer α) Unit) :
    Action.Refines (fun _ => False) (fun l c => l.toComposer = c) (noting a) a
      (fun _ l c => l.toComposer = c) fun l c => l.toComposer = c := by
  refine .of_steps ?_
  rintro l _ rfl
  rw [noting, Action.gets_bind]
  cases hresult : (a l.toComposer).result with
  | error e =>
      obtain ⟨hr, hs⟩ := Action.bind_eq_of_error (a := onComposer a) (s := l) hresult
      rw [hr, hs]
      exact ⟨rfl, rfl⟩
  | ok _ =>
      obtain ⟨hr, hs⟩ := Action.bind_eq_of_ok (a := onComposer a) (s := l) hresult
      rw [hr, hs]
      exact ⟨rfl, rfl⟩

/-- Without its notes the ledger is the composer. -/
theorem refines_receiver :
    (receiver : Receiver α (Ledger α)).Refines (fun _ => False) Scope.all
      (fun _ _ l c => l.toComposer = c) Composer.receiver where
  fewer _ h := h
  apertureDefined s d _ _ _ _ := refines_noting _
  beginBlock s b _ _ _ _ := refines_onComposer _
  endBlock s b _ _ _ _ := refines_onComposer _
  beginStepRepeat s b _ _ _ := refines_onComposer _
  endStepRepeat s b _ _ _ := refines_onComposer _
  flash s id target center _ _ _ _ := refines_onComposer _
  send s segment route _ _ _ := by
    cases route <;> exact refines_onComposer _
  beginRegion s _ _ _ := refines_onComposer _
  flushRegion s _ _ _ := refines_onComposer _
  endRegion s _ _ _ := refines_onComposer _
  endOfFile s _ _ := refines_onComposer _

end Ledger

/-! ### Programs -/

variable [Scalar α] [Legible α]

/-- The ledger after a program. -/
def ledger (options : Options) (nodes : List (Node α)) : Ledger α :=
  ((Machine.run Ledger.receiver options nodes).run (.initial .initial)).state.receiver

/-- Whether a layer of a program is a stencil. The main layer is none, even if an aperture has its
name. -/
def stencils (options : Options) (nodes : List (Node α)) (id : LayerId) : Bool :=
  id != .main && Library.isStencil (ledger options nodes).made (ledger options nodes).history id

/-- **Forgetting the ledger** gives exactly the run of the composer. -/
theorem run_ledger (options : Options) (nodes : List (Node α)) :
    let run := (Machine.run Ledger.receiver options nodes).run (.initial .initial)
    let plain := (Machine.run Composer.receiver options nodes).run (.initial .initial)
    run.result = plain.result ∧ (ledger options nodes).toComposer = composed options nodes ∧
      run.state.diagnostics = plain.state.diagnostics := by
  have hrun := Machine.refines_run Ledger.refines_receiver (fun _ => False.elim) options
    (Scope.admits_all nodes)
  have hstart : Machine.Alike Scope.all (fun (l : Ledger α) (c : Composer α) => l.toComposer = c)
      (Machine.initial Ledger.initial : Machine α (Ledger α)) (.initial .initial) :=
    ⟨rfl, rfl, rfl, rfl, ⟨trivial, trivial, fun _ _ _ => trivial, fun _ _ _ => trivial⟩, rfl⟩
  obtain ⟨hresult, hended⟩ := Action.Refines.ends hrun hstart
  exact ⟨hresult, hended.receiver, hended.diagnostics⟩

end Photoplot
