import Photoplot.Proofs.Bodies
import Photoplot.Proofs.ComposerInvariants
import Photoplot.Proofs.PictureLayers

/-!
# The Stack of Open Layers

A body is drawn into a layer of its own, which is put on the stack when the body begins and taken
off when it ends. Halts and errors leave a body early, but not its frame, so every node leaves the
stack as it found it, except that something may have been added to the top layer.

In the middle of a run there is one more layer on the stack for each open body. What is below them
is compared to the stack at the beginning by induction on the open bodies (`Composer.Above`).

## Main definitions

* `Composer.Grows`: nothing but the items at the end of the top layer is new on the stack.
* `Composer.Above`: the same with open bodies on top.

## Main results

* `Composer.refines_receiver_above`: what each callback does to the stack.
* `Machine.stack_balanced`: the stack after a node, at the end of bodies, and after a run.
-/

namespace Photoplot

variable {α : Type}

namespace Composer

/-! ### Stacks that grow -/

/-- The stack of `c'` is that of `c` with items added to the top layer. -/
structure Grows (c c' : Composer α) : Prop where
  id : c'.top.id = c.top.id
  items : c.top.items.toList <+: c'.top.items.toList
  below : c'.below = c.below

/-- A stack grows into itself. -/
theorem Grows.refl (c : Composer α) : c.Grows c := ⟨rfl, List.prefix_rfl, rfl⟩

/-- A stack that grows twice grows. -/
theorem Grows.trans {c c' c'' : Composer α} (h : c.Grows c') (h' : c'.Grows c'') : c.Grows c'' :=
  ⟨h'.id.trans h.id, h.items.trans h'.items, h'.below.trans h.below⟩

/-- A stack that grows has the same layers open. -/
theorem Grows.stack_ids {c c' : Composer α} (h : c.Grows c') :
    c'.stack.map (·.id) = c.stack.map (·.id) := by
  simp [stack, h.id, h.below]

/-- The stack of `c` is that of `c₀` with items added to the top layer and one layer for each open
body above it, the innermost one first. The layer of a block has the name of the block. -/
inductive Above (c₀ : Composer α) : List (Option ApertureId) → Composer α → Prop
  | base {c : Composer α} : c₀.Grows c → Above c₀ [] c
  | body {name : Option ApertureId} {bodies : List (Option ApertureId)} {parent c : Composer α} :
      Above c₀ bodies parent → c.below = parent.top :: parent.below →
      (∀ id ∈ name, c.top.id = .ofAperture id) → Above c₀ (name :: bodies) c

/-- What is above a stack may grow. -/
theorem Above.grows {c₀ c c' : Composer α} {bodies : List (Option ApertureId)}
    (h : Above c₀ bodies c) (hgrows : c.Grows c') : Above c₀ bodies c' := by
  cases h with
  | base h => exact .base (h.trans hgrows)
  | body hparent hbelow hname =>
      exact .body hparent (hgrows.below.trans hbelow) fun id hid => hgrows.id.trans (hname id hid)

/-- Shapes and contours let a stack grow. -/
theorem steady_grows (c₀ : Composer α) : Steady (Grows c₀) where
  shapes c shapes h := h.trans ⟨Layer.id_append _ _, by simp, rfl⟩
  contour c _ _ h := h.trans ⟨rfl, List.prefix_rfl, rfl⟩

/-- Shapes and contours leave what is below the open bodies. -/
theorem steady_above (c₀ : Composer α) (bodies : List (Option ApertureId)) :
    Steady (Above c₀ bodies) where
  shapes c shapes h := h.grows ((steady_grows c).shapes c shapes (.refl c))
  contour c contour hopen h := h.grows ((steady_grows c).contour c contour hopen (.refl c))

/-! ### Callbacks -/

variable {c₀ : Composer α} {bodies : List (Option ApertureId)}

/-- A body is begun by a new layer. -/
theorem ensures_begin {id : LayerId} {name : Option ApertureId}
    (hname : ∀ id' ∈ name, id = .ofAperture id') :
    Action.Ensures (Above c₀ bodies) (begin id) (fun _ => Above c₀ (name :: bodies))
      fun _ _ => False :=
  fun _ hc => .body hc rfl hname

variable [Scalar α]

/-- The end of a step-and-repeat takes its layer off the stack. -/
theorem ensures_endStepRepeat (r : StepRepeat α) :
    Action.Ensures (Above c₀ (none :: bodies)) (endStepRepeat r) (fun _ => Above c₀ bodies)
      fun _ _ => False := by
  rintro c (_ | ⟨hparent, hbelow, -⟩)
  rename_i parent
  have hitems : parent.top.items.toList <+: ((offsets r.grid).foldl
      (fun l offset => l.appendTranslated c.top offset) parent.top).items.toList := by
    rw [items_foldl_appendTranslated]
    exact List.prefix_append _ _
  rw [endStepRepeat, Action.get_bind, hbelow]
  exact hparent.grows ⟨id_foldl_appendTranslated _ _ _, hitems, rfl⟩

variable [Legible α]

omit [Scalar α] in
/-- The end of a block takes its layer off the stack. It has the name of the block. -/
theorem ensures_endBlock (b : Block α) :
    Action.Ensures (Above c₀ (some b.id :: bodies)) (endBlock b) (fun _ => Above c₀ bodies)
      fun _ _ => False := by
  rintro c (_ | ⟨hparent, hbelow, hname⟩)
  rw [endBlock, Action.get_bind, hbelow]
  dsimp only
  rw [if_pos (hname b.id rfl)]
  exact hparent.grows ⟨rfl, List.prefix_rfl, rfl⟩

/-- **The callbacks and the stack.** The beginnings of bodies put a layer on the stack, the ends of
bodies take it off, and the other callbacks only add to the top layer. -/
theorem refines_receiver_above (c₀ : Composer α) :
    (receiver : Receiver α (Composer α)).Refines (fun _ => False) Scope.all
      (fun bodies _ c c' => c = c' ∧ Above c₀ bodies c) receiver where
  fewer _ h := h
  apertureDefined s d bodies _ _ _ :=
    (keeps_defineAperture (fun c _ hc => hc.grows ⟨rfl, List.prefix_rfl, rfl⟩)
      fun _ _ c hc => hc.grows ⟨rfl, List.prefix_rfl, rfl⟩).refines
  beginBlock _ b bodies _ _ _ :=
    ((ensures_begin fun _ hid => by rw [Option.some.inj hid]).weaken (fun _ _ h => h)
      fun _ _ => False.elim).refines
  endBlock _ b bodies _ _ _ :=
    ((ensures_endBlock b).weaken (fun _ _ h => h) fun _ _ => False.elim).refines
  beginStepRepeat _ _ bodies _ _ := by
    refine Action.Ensures.refines (Action.Ensures.bind (M := fun _ => Above c₀ bodies)
      (fun c hc => hc.grows ⟨rfl, List.prefix_rfl, rfl⟩) fun _ => ?_)
    refine Action.Ensures.bind (M := fun _ => Above c₀ bodies) (fun c hc => hc) fun count => ?_
    exact (ensures_begin (by simp)).weaken (fun _ _ h => h) fun _ _ => False.elim
  endStepRepeat _ r bodies _ _ :=
    ((ensures_endStepRepeat r).weaken (fun _ _ h => h) fun _ _ => False.elim).refines
  flash s id _ center bodies _ _ _ := by
    have hvariant : Action.Keeps (Above c₀ bodies)
        (onLibrary (Library.variant s.transform (.ofAperture id))) :=
      fun c hc => hc.grows ⟨rfl, List.prefix_rfl, rfl⟩
    refine (keeps_flash hvariant.ensures fun c source hc => ?_).refines
    refine hc.grows ⟨Layer.id_push _ _, ?_, rfl⟩
    rw [Layer.items_push]
    exact List.prefix_append _ _
  send s segment route bodies _ _ :=
    ((steady_above c₀ bodies).keeps_send s segment route).refines
  beginRegion _ bodies _ _ :=
    (Action.Keeps.modify fun c hc => hc.grows ⟨rfl, List.prefix_rfl, rfl⟩).refines
  flushRegion s bodies _ _ := ((steady_above c₀ bodies).keeps_flushContour s).refines
  endRegion s bodies _ _ :=
    ((steady_above c₀ bodies).keeps_endRegion
      (fun c hc => hc.grows ⟨rfl, List.prefix_rfl, rfl⟩) s).refines
  endOfFile _ _ _ :=
    (Action.Keeps.modify fun c hc => hc.grows ⟨rfl, List.prefix_rfl, rfl⟩).refines

end Composer

/-! ### Runs -/

open Composer

variable [Scalar α] [Legible α]

/-- The name of a body in the list of open ones. -/
def Frame.name? : Frame α → Option ApertureId
  | .block id => some id
  | .stepRepeat _ => none

namespace Machine

/-- Nodes in order leave the open bodies as they are. -/
theorem above_visitAll {c₀ : Composer α} {bodies : List (Option ApertureId)}
    {m : Machine α (Composer α)} (h : Above c₀ bodies m.receiver) (options : Options)
    (nodes : List (Node α)) :
    Above c₀ bodies (visitAll Composer.receiver options nodes m).state.receiver :=
  receiver_of_refines (refines_visitAll (refines_receiver_above c₀) (fun _ => False.elim) options
    nodes (Scope.admits_all nodes) bodies []) h

/-- After a run only the main layer is on the stack, as before it. -/
theorem grows_composed (options : Options) (nodes : List (Node α)) :
    Composer.initial.Grows (composed options nodes) := by
  have habove : Above Composer.initial [] (composed options nodes) :=
    receiver_of_refines (refines_run (refines_receiver_above Composer.initial)
      (fun _ => False.elim) options (Scope.admits_all nodes)) (.base (.refl _))
  cases habove with
  | base hgrows => exact hgrows

omit [Scalar α] [Legible α] in
/-- What an id stands for can be selected if it can be flashed. -/
theorem result_select {σ : Type} {id : ApertureId} {resolved : Resolved α} {m : Machine α σ}
    (h : m.state.resolve id = .ok resolved) :
    (select id m).result = (FlashTarget.ofResolved resolved).map fun _ => () := by
  have hresolve : ({ m.state with selected := some id }).resolve id = .ok resolved := h
  rw [select, (Action.bind_eq_of_ok rfl).1, Action.gets_bind]
  dsimp only [Action.modify]
  rw [hresolve]
  dsimp only
  cases FlashTarget.ofResolved resolved <;> rfl

/-- **The beginning of a frame** puts one layer on the stack and never fails, whatever the frame is
around. -/
theorem above_enter {c₀ : Composer α} {bodies : List (Option ApertureId)}
    {m : Machine α (Composer α)} (h : Above c₀ bodies m.receiver) (body : List (Node α))
    (frame : Frame α) :
    (enter Composer.receiver body frame m).result = .ok () ∧
      Above c₀ (frame.name? :: bodies) (enter Composer.receiver body frame m).state.receiver := by
  cases frame with
  | stepRepeat grid =>
      have hcounted :
          Above c₀ bodies { m.receiver with stepRepeats := m.receiver.stepRepeats + 1 } :=
        h.grows ⟨rfl, List.prefix_rfl, rfl⟩
      exact ⟨rfl, .body hcounted rfl (by simp [Frame.name?])⟩
  | block id =>
      let defined := { m with state := m.state.defineBlock ⟨id, body⟩ }
      have hresolve : defined.state.resolve id = .ok (.block ⟨id, body⟩) := by
        simp [defined, GraphicsState.resolve, GraphicsState.defineBlock]
      have hselect : (reselect id defined).result = .ok () := by
        rw [reselect, Action.gets_bind]
        split
        · exact result_select hresolve
        · rfl
      have hselected : Above c₀ bodies (reselect id defined).state.receiver :=
        keeps_reselect id defined h
      obtain ⟨hresult, hstate⟩ := Action.bind_eq_of_ok
        (f := fun _ => tell fun s => Composer.receiver.beginBlock s ⟨id, body⟩) hselect
      rw [enter, (Action.bind_eq_of_ok (a := modifyState _) rfl).1,
        (Action.bind_eq_of_ok (a := modifyState _) rfl).2]
      refine ⟨hresult, hstate ▸ .body hselected rfl fun other hother => ?_⟩
      obtain rfl : id = other := Option.some.inj hother
      rfl

/-- **The end of a frame** finds the layer of its body on top of the stack, however the body
ended, so it never fails. -/
theorem closing_eq_ok (options : Options) (body : List (Node α)) (frame : Frame α)
    (m : Machine α (Composer α)) (s : GraphicsState α) :
    (closing Composer.receiver body frame s (visitAll Composer.receiver options body
      (enter Composer.receiver body frame m).state).state.receiver).result = .ok () := by
  have hentered := (above_enter (.base (.refl m.receiver)) body frame).2
  have hbody := above_visitAll hentered options body
  cases frame with
  | block id => exact ((ensures_endBlock ⟨id, body⟩).exists_ok hbody).choose_spec
  | stepRepeat grid => exact ((ensures_endStepRepeat ⟨grid, body⟩).exists_ok hbody).choose_spec

/-- **Stack discipline.** A node leaves the stack as it found it, except that items may have been
added to the top layer. The two sides of a frame never fail, whatever its body does and however it
ends. After a run only the main layer is on the stack, and nothing is dropped. -/
theorem stack_balanced (options : Options) :
    (∀ (node : Node α) (m : Machine α (Composer α)),
      m.receiver.Grows (visit Composer.receiver options node m).state.receiver) ∧
    (∀ (frame : Frame α) (body : List (Node α)) (m : Machine α (Composer α)) s,
      let entered := enter Composer.receiver body frame m
      let after := visitAll Composer.receiver options body entered.state
      entered.result = .ok () ∧
        (closing Composer.receiver body frame s after.state.receiver).result = .ok ()) ∧
    (∀ nodes : List (Node α), (composed options nodes).stack.map (·.id) = [.main] ∧
      (Composer.finish (composed options nodes)).warnings = []) := by
  refine ⟨fun node m => ?_, fun frame body m s => ?_, fun nodes => ?_⟩
  · have habove : Above m.receiver [] (visit Composer.receiver options node m).state.receiver :=
      receiver_of_refines (refines_visit (refines_receiver_above m.receiver) (fun _ => False.elim)
        options node (Scope.admits_all _) [] []) (.base (.refl _))
    cases habove with
    | base hgrows => exact hgrows
  · exact ⟨(above_enter (.base (.refl m.receiver)) body frame).1,
      closing_eq_ok options body frame m s⟩
  · have hgrows := grows_composed options nodes
    refine ⟨hgrows.stack_ids, ?_⟩
    rw [Composer.finish, Action.get_bind, hgrows.below]
    rfl

end Machine

end Photoplot
