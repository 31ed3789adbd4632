import Photoplot.Proofs.StackDiscipline
import Photoplot.Proofs.Steps

/-!
# Invariants with Open Bodies

What is true of a receiver may depend on where the run stands: on the bodies that are open and on
the ids that may still be defined. The callbacks say what becomes of such an invariant
(`Receiver.Refines`), and so it holds at every moment of a run, also in the middle of bodies.

## Name convention

The **open** bodies of a moment are named with the innermost one first. The **upcoming** ids are
those that the nodes define which are about to be visited, and after them the nodes that come after
the open bodies. A node that is skipped, or a run that stops early, may leave upcoming ids
undefined.

## Main definitions

* `Moment.openNames`, `Moment.upcoming`: the names of the open bodies and the upcoming ids.
* `Moment.Holds`: an invariant holds where the run stands.

## Main results

* `Moment.holds_step`: one step, by what comes next.
* `Machine.holds_moment`: an invariant that the callbacks carry on holds at all moments of a run.
-/

namespace Photoplot

variable {α σ τ : Type}

/-! ### The two sides of a frame -/

namespace Machine

variable {doomed : Error → Prop} {scope : Scope α} {R : ReceiverRelation σ τ}
  {r : Receiver α σ} {r' : Receiver α τ} {bodies : List (Option ApertureId)}
  {fresh : List ApertureId}

/-- The beginning of a body. -/
theorem refines_enter (hr : r.Refines doomed scope R r') {body : List (Node α)} {frame : Frame α}
    (hadmits : scope.Admits [frame.enclose body]) :
    Action.Refines doomed (Alike scope (R bodies ((frame.enclose body).definitions ++ fresh)))
      (enter r body frame) (enter r' body frame)
      (fun _ => Alike scope (R (frame.name? :: bodies) (Node.definitionsOf body ++ fresh)))
      (Alike scope (R bodies fresh)) := by
  have hfewer (before : List ApertureId) :
      ∀ c c', R bodies (before ++ fresh) c c' → R bodies fresh c c' :=
    fun _ _ => hr.fewer (List.sublist_append_right _ _)
  cases frame with
  | block id =>
      obtain ⟨hid, -⟩ := hadmits.block
      refine Action.Refines.bind
        (refines_modifyState fun s h => h.defineBlock (b := ⟨id, body⟩) hid) fun _ => ?_
      refine Action.Refines.bind ((simulates_reselect id).weaken (fun _ _ _ h => h)
        fun _ _ h => h.weaken (hfewer _)) fun _ => ?_
      have hbegin := refines_tell fun s hs =>
        hr.beginBlock s ⟨id, body⟩ bodies (Node.definitionsOf body ++ fresh) hs hid
      exact hbegin.weaken (fun _ _ _ h => h) fun _ _ h => h.weaken (hfewer _)
  | stepRepeat grid =>
      have hbegin := refines_tell fun s hs =>
        hr.beginStepRepeat s ⟨grid, body⟩ bodies (Node.definitionsOf body ++ fresh) hs
      exact hbegin.weaken (fun _ _ _ h => h) fun _ _ h => h.weaken (hfewer _)

/-- The end of a body. -/
theorem refines_leave (hr : r.Refines (fun _ => False) Scope.all R r') (b : OpenBody α) :
    Action.Refines (fun _ => False) (Alike Scope.all (R (b.frame.name? :: bodies) fresh))
      (leave r b) (leave r' b) (fun _ => Alike Scope.all (R bodies fresh))
      (Alike Scope.all (R bodies fresh)) := by
  refine Action.Refines.bind (refines_modifyState
    fun s h => ⟨h.rotation, h.scale, h.apertures, h.blocks⟩) fun _ => refines_tell fun s hs => ?_
  cases hframe : b.frame with
  | block id => exact hr.endBlock s ⟨id, b.body⟩ bodies fresh hs trivial
  | stepRepeat grid => exact hr.endStepRepeat s ⟨grid, b.body⟩ bodies fresh hs

end Machine

/-! ### Moments -/

/-- The ids that may be defined after some open bodies. -/
def OpenBody.definitionsAfter (bodies : List (OpenBody α)) : List ApertureId :=
  bodies.flatMap fun b => Node.definitionsOf b.after

namespace Moment

/-- The names of the open bodies. -/
def openNames : Moment α σ → List (Option ApertureId)
  | visiting _ _ bodies | leaving _ _ bodies => bodies.map (·.frame.name?)
  | finished .. => []

/-- The ids that may still be defined, apart from those of open blocks. -/
def upcoming : Moment α σ → List ApertureId
  | visiting _ nodes bodies => Node.definitionsOf nodes ++ OpenBody.definitionsAfter bodies
  | leaving _ _ bodies => OpenBody.definitionsAfter bodies
  | finished .. => []

/-- An invariant of receivers holds where the run stands. -/
def Holds (I : List (Option ApertureId) → List ApertureId → σ → Prop) (x : Moment α σ) : Prop :=
  I x.openNames x.upcoming x.machine.receiver

variable [Scalar α] {I : List (Option ApertureId) → List ApertureId → σ → Prop}
  {r : Receiver α σ} {options : Options}

omit [Scalar α] in
/-- After a node the run goes on, or leaves what comes after the node undefined. -/
theorem holds_settle
    (hr : r.Refines (fun _ => False) Scope.all
      (fun bodies fresh c c' => c = c' ∧ I bodies fresh c) r)
    {node : Node α} {rest : List (Node α)} {bodies : List (OpenBody α)} {m : Machine α σ}
    (hm : (visiting m rest bodies).Holds I) (result : Except Error Flow) :
    (settle options node rest bodies m result).Holds I := by
  have hleaving (m : Machine α σ) (flow : Except Error Flow)
      (hm : (visiting m rest bodies).Holds I) : (leaving m flow bodies).Holds I :=
    (hr.fewer (List.sublist_append_right _ _) ⟨rfl, hm⟩).2
  rcases result with e | flow | flow
  · have hskip : (visiting (Machine.skip options node e m).state rest bodies).Holds I :=
      Machine.receiver_of_refines (Machine.simulates_skip options node e) hm
    rw [settle]
    split
    · exact hskip
    · exact hleaving _ _ hskip
  · exact hm
  · exact hleaving m _ hm

/-- **One step**, by what comes next. -/
theorem holds_step
    (hr : r.Refines (fun _ => False) Scope.all
      (fun bodies fresh c c' => c = c' ∧ I bodies fresh c) r)
    {x : Moment α σ} (hx : x.Holds I) : (x.step r options).Holds I := by
  cases x using Moment.cases_next with
  | nothing m bodies => exact hx
  | command m c rest bodies =>
      rw [Holds, upcoming, Node.definitionsOf, List.append_assoc] at hx
      rw [step_command]
      exact holds_settle hr (Machine.receiver_of_refines
        (Machine.refines_perform hr (Scope.admits_all _)) hx) _
  | enclose m frame body rest bodies =>
      rw [Holds, upcoming, Node.definitionsOf, List.append_assoc] at hx
      have hentered := Machine.ensures_of_refines
        (Machine.refines_enter hr (Scope.admits_all [frame.enclose body])) m hx
      rw [step_enclose, begin]
      cases hresult : (Machine.enter r body frame m).result with
      | error e =>
          rw [hresult] at hentered
          have hrest : (visiting (Machine.enter r body frame m).state rest bodies).Holds I :=
            hentered
          exact holds_settle hr hrest _
      | ok _ =>
          rw [hresult] at hentered
          exact hentered
  | leave m flow b bodies =>
      rw [step_leave]
      exact holds_settle hr (Machine.receiver_of_refines (Machine.refines_leave hr b) hx) _
  | close m flow =>
      rw [step_close]
      exact Machine.receiver_of_refines
        (Machine.refines_tell fun s hs => hr.endOfFile s [] hs) hx
  | finished m result => exact hx

end Moment

/-- **All moments of a run.** In the beginning no body is open, and all ids of the program are
upcoming. -/
theorem Machine.holds_moment [Scalar α] {I : List (Option ApertureId) → List ApertureId → σ → Prop}
    {r : Receiver α σ} (hr : r.Refines (fun _ => False) Scope.all
      (fun bodies fresh c c' => c = c' ∧ I bodies fresh c) r) (options : Options)
    {nodes : List (Node α)} {m : Machine α σ}
    (hm : I [] (Node.definitionsOf nodes) m.receiver) (k : Nat) :
    (moment r options nodes m k).Holds I := by
  induction k with
  | zero =>
      have hstart : (Moment.visiting m nodes []).upcoming = Node.definitionsOf nodes :=
        List.append_nil _
      rw [← hstart] at hm
      exact hm
  | succ k ih =>
      rw [moment_succ]
      exact Moment.holds_step hr ih

end Photoplot
