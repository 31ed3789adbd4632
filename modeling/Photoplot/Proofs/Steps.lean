import Photoplot.Proofs.Bodies
import Mathlib.Logic.Function.Iterate
import Mathlib.Logic.Relation

/-!
# Runs Step by Step

What a run leaves behind says nothing about what happened on the way. So a run is taken apart into
steps: a step carries out one command, or begins a body, or ends one, or tells the receiver of the
end of the file. Between two steps the run stands at a **moment**.

## Moment convention

At a moment nodes are about to be visited, or the innermost open body is about to be left, or the
run is over. The bodies that have been begun and not ended are listed with the innermost one first,
each with what is left to do when it has ended. A moment at which a run is over is followed by
itself; a machine that is asked for another run goes on from there (`Moment.Next`).

## Main definitions

* `OpenBody`, `Machine.leave`: a body that has been begun, and its end.
* `Moment`, `Moment.step`: where a run stands, and the next moment.
* `moment`: the moments of a run, by their number.
* `Moment.Later`: the order of the moments of a machine, in one run or several.

## Main results

* `leads_run`: the steps lead from the nodes to what the run of the machine ends with.
* `Moment.keeps_step`: what a step keeps, from what the parts of a run keep.
* `Machine.Invariant.of_later`: invariants hold at all moments.
-/

namespace Photoplot

variable {α σ : Type}

/-! ### Moments -/

/-- A body that has been begun and not ended. -/
structure OpenBody (α : Type) where
  frame : Frame α
  body : List (Node α)
  /-- The current point before the body, which is put back. -/
  position : Point α
  /-- The nodes that come after the body. -/
  after : List (Node α)

/-- The node that an open body belongs to. -/
def OpenBody.node (b : OpenBody α) : Node α := b.frame.enclose b.body

/-- Ends an open body. -/
def Machine.leave (r : Receiver α σ) (b : OpenBody α) : Action (Machine α σ) Unit := do
  modifyState fun s => { s with position := b.position }
  tell (closing r b.body b.frame)

/-- Where a run stands. -/
inductive Moment (α σ : Type) where
  /-- Nodes are about to be visited, unless there are none left. -/
  | visiting (m : Machine α σ) (nodes : List (Node α)) (bodies : List (OpenBody α))
  /-- Nodes have ended, and the innermost open body or else the run is about to end. -/
  | leaving (m : Machine α σ) (flow : Except Error Flow) (bodies : List (OpenBody α))
  /-- The run is over. -/
  | finished (m : Machine α σ) (result : Except Error Unit)

namespace Moment

/-- A moment by what comes next: the end of nodes, a command, the beginning or the end of a body, or
the end of the file, unless the run is over. -/
@[elab_as_elim]
theorem cases_next {motive : Moment α σ → Prop} (x : Moment α σ)
    (nothing : ∀ m bodies, motive (visiting m [] bodies))
    (command : ∀ m c rest bodies, motive (visiting m (.command c :: rest) bodies))
    (enclose : ∀ m (frame : Frame α) body rest bodies,
      motive (visiting m (frame.enclose body :: rest) bodies))
    (leave : ∀ m flow b bodies, motive (leaving m flow (b :: bodies)))
    (close : ∀ m flow, motive (leaving m flow []))
    (finished : ∀ m result, motive (finished m result)) : motive x := by
  cases x with
  | visiting m nodes bodies =>
      cases nodes with
      | nil => exact nothing m bodies
      | cons node rest =>
          cases node with
          | command c => exact command m c rest bodies
          | block id body => exact enclose m (.block id) body rest bodies
          | stepRepeat grid body => exact enclose m (.stepRepeat grid) body rest bodies
  | leaving m flow bodies =>
      cases bodies with
      | nil => exact close m flow
      | cons b bodies => exact leave m flow b bodies
  | finished m result => exact finished m result

/-- The machine at a moment. -/
def machine : Moment α σ → Machine α σ
  | visiting m _ _ | leaving m _ _ | finished m _ => m

/-- The moment after a node that ended with a result, with other nodes after it. -/
def settle (options : Options) (node : Node α) (rest : List (Node α)) (bodies : List (OpenBody α))
    (m : Machine α σ) : Except Error Flow → Moment α σ
  | .ok .continue => .visiting m rest bodies
  | .ok .halt => .leaving m (.ok .halt) bodies
  | .error e =>
    let skipped := Machine.skip options node e m
    match skipped.result with
    | .ok _ => .visiting skipped.state rest bodies
    | .error e => .leaving skipped.state (.error e) bodies

/-- The moment after the beginning of a body, unless it was refused. -/
def begin (r : Receiver α σ) (options : Options) (frame : Frame α) (body rest : List (Node α))
    (bodies : List (OpenBody α)) (m : Machine α σ) : Moment α σ :=
  let entered := Machine.enter r body frame m
  match entered.result with
  | .ok _ =>
    .visiting entered.state body (⟨frame, body, entered.state.state.position, rest⟩ :: bodies)
  | .error e => settle options (frame.enclose body) rest bodies entered.state (.error e)

variable [Scalar α]

/-- The next moment. -/
def step (r : Receiver α σ) (options : Options) : Moment α σ → Moment α σ
  | visiting m [] bodies => leaving m (.ok .continue) bodies
  | visiting m (.command c :: rest) bodies =>
    let performed := Machine.perform r c m
    settle options (.command c) rest bodies performed.state
      (performed.result.map fun _ => Machine.stops options c)
  | visiting m (.block id body :: rest) bodies => begin r options (.block id) body rest bodies m
  | visiting m (.stepRepeat grid body :: rest) bodies =>
    begin r options (.stepRepeat grid) body rest bodies m
  | leaving m flow (b :: bodies) =>
    let left := Machine.leave r b m
    settle options b.node b.after bodies left.state
      (flow.bind fun flow => left.result.map fun _ => flow)
  | leaving m flow [] =>
    let closed := Machine.tell r.endOfFile m
    finished closed.state (flow.bind fun _ => closed.result)
  | finished m result => finished m result

variable {r : Receiver α σ} {options : Options}

/-- A step carries out a command. -/
theorem step_command (c : Command α) (rest : List (Node α)) (bodies : List (OpenBody α))
    (m : Machine α σ) :
    step r options (visiting m (.command c :: rest) bodies) =
      settle options (.command c) rest bodies (Machine.perform r c m).state
        ((Machine.perform r c m).result.map fun _ => Machine.stops options c) := rfl

/-- A step ends the innermost body. -/
theorem step_leave (b : OpenBody α) (bodies : List (OpenBody α)) (m : Machine α σ)
    (flow : Except Error Flow) :
    step r options (leaving m flow (b :: bodies)) =
      settle options b.node b.after bodies (Machine.leave r b m).state
        (flow.bind fun flow => (Machine.leave r b m).result.map fun _ => flow) := rfl

/-- A step after all bodies have ended tells the receiver of the end of the file. -/
theorem step_close (m : Machine α σ) (flow : Except Error Flow) :
    step r options (leaving m flow []) =
      finished (Machine.tell r.endOfFile m).state
        (flow.bind fun _ => (Machine.tell r.endOfFile m).result) := rfl

/-- A step begins a body. -/
theorem step_enclose (frame : Frame α) (body rest : List (Node α)) (bodies : List (OpenBody α))
    (m : Machine α σ) :
    step r options (visiting m (frame.enclose body :: rest) bodies) =
      begin r options frame body rest bodies m := by
  cases frame <;> rfl

/-- A run that is over stays over. -/
theorem iterate_step_finished (k : Nat) (m : Machine α σ) (result : Except Error Unit) :
    (step r options)^[k] (finished m result) = finished m result :=
  Function.iterate_fixed rfl k

/-- Steps lead from one moment to another. -/
def Leads (r : Receiver α σ) (options : Options) (x y : Moment α σ) : Prop :=
  ∃ k, (step r options)^[k] x = y

/-- A moment leads to itself. -/
theorem Leads.refl (x : Moment α σ) : Leads r options x x := ⟨0, rfl⟩

/-- A moment leads to the next one. -/
theorem leads_step (r : Receiver α σ) (options : Options) (x : Moment α σ) :
    Leads r options x (step r options x) :=
  ⟨1, rfl⟩

/-- What a moment leads to leads on. -/
theorem Leads.trans {x y z : Moment α σ} (h : Leads r options x y) (h' : Leads r options y z) :
    Leads r options x z := by
  obtain ⟨k, rfl⟩ := h
  obtain ⟨k', rfl⟩ := h'
  exact ⟨k' + k, Function.iterate_add_apply _ _ _ _⟩

end Moment

/-! ### From steps to runs -/

open Machine Moment

variable [Scalar α] (r : Receiver α σ) (options : Options)

/-- A node whose body is run by steps is visited by steps. -/
theorem leads_visit_enclose (frame : Frame α) {body : List (Node α)}
    (hbody : ∀ (m : Machine α σ) bodies, Leads r options (.visiting m body bodies)
      (.leaving (visitAll r options body m).state (visitAll r options body m).result bodies))
    (m : Machine α σ) (rest : List (Node α)) (bodies : List (OpenBody α)) :
    Leads r options (.visiting m (frame.enclose body :: rest) bodies)
      (settle options (frame.enclose body) rest bodies
        (visit r options (frame.enclose body) m).state
        (visit r options (frame.enclose body) m).result) := by
  have hbegin := leads_step r options (.visiting m (frame.enclose body :: rest) bodies)
  rw [step_enclose, Moment.begin] at hbegin
  rw [visit_enclose]
  cases hentered : (enter r body frame m).result with
  | error e =>
      rw [hentered] at hbegin
      rwa [(Action.bind_eq_of_error hentered).1, (Action.bind_eq_of_error hentered).2]
  | ok _ =>
      rw [hentered] at hbegin
      rw [(Action.bind_eq_of_ok hentered).1, (Action.bind_eq_of_ok hentered).2,
        (enclosed_eq _ _ _).1, (enclosed_eq _ _ _).2]
      exact (hbegin.trans (hbody _ _)).trans (leads_step _ _ _)

mutual

/-- **One node** is visited by steps. -/
theorem leads_visit (node : Node α) (m : Machine α σ) (rest : List (Node α))
    (bodies : List (OpenBody α)) :
    Leads r options (.visiting m (node :: rest) bodies)
      (settle options node rest bodies (visit r options node m).state
        (visit r options node m).result) := by
  match node with
  | .command c =>
      have hvisit : (visit r options (.command c) m).state = (perform r c m).state ∧
          (visit r options (.command c) m).result =
            (perform r c m).result.map fun _ => stops options c := by
        rw [visit]
        cases hperform : (perform r c m).result with
        | error e =>
            rw [(Action.bind_eq_of_error hperform).1, (Action.bind_eq_of_error hperform).2]
            exact ⟨rfl, rfl⟩
        | ok _ =>
            rw [(Action.bind_eq_of_ok hperform).1, (Action.bind_eq_of_ok hperform).2]
            exact ⟨rfl, rfl⟩
      rw [hvisit.1, hvisit.2]
      exact leads_step _ _ _
  | .block id body =>
      exact leads_visit_enclose r options (.block id) (leads_visitAll body) m rest bodies
  | .stepRepeat grid body =>
      exact leads_visit_enclose r options (.stepRepeat grid) (leads_visitAll body) m rest bodies

/-- **Nodes in order** are visited by steps. -/
theorem leads_visitAll (nodes : List (Node α)) (m : Machine α σ) (bodies : List (OpenBody α)) :
    Leads r options (.visiting m nodes bodies)
      (.leaving (visitAll r options nodes m).state (visitAll r options nodes m).result bodies) := by
  match nodes with
  | [] =>
      rw [visitAll]
      exact leads_step _ _ _
  | node :: rest =>
      refine (leads_visit node m rest bodies).trans ?_
      rw [(visitAll_cons r options node rest m).1, (visitAll_cons r options node rest m).2]
      generalize (visit r options node m).state = m'
      rcases (visit r options node m).result with e | flow | flow
      · rw [proceed, settle]
        cases hskip : (skip options node e m').result with
        | error e' =>
            rw [(Action.bind_eq_of_error hskip).1, (Action.bind_eq_of_error hskip).2]
            exact .refl _
        | ok _ =>
            rw [(Action.bind_eq_of_ok hskip).1, (Action.bind_eq_of_ok hskip).2]
            exact leads_visitAll rest _ bodies
      · exact leads_visitAll rest m' bodies
      · exact .refl _

end

/-- **A run** is made by steps. -/
theorem leads_run (nodes : List (Node α)) (m : Machine α σ) :
    Leads r options (.visiting m nodes [])
      (.finished (run r options nodes m).state (run r options nodes m).result) := by
  rw [(run_eq r options nodes m).1, (run_eq r options nodes m).2]
  exact (leads_visitAll r options nodes m []).trans (leads_step _ _ _)

/-- The moment `k` steps after the beginning of a run. -/
def moment (nodes : List (Node α)) (m : Machine α σ) (k : Nat) : Moment α σ :=
  (step r options)^[k] (.visiting m nodes [])

section Moments

variable {r options} {nodes : List (Node α)} {m : Machine α σ}

/-- The next moment is a step away. -/
theorem moment_succ (k : Nat) :
    moment r options nodes m (k + 1) = step r options (moment r options nodes m k) :=
  Function.iterate_succ_apply' _ _ _

/-- A later moment is as many steps away. -/
theorem moment_add (k j : Nat) :
    moment r options nodes m (k + j) = (step r options)^[j] (moment r options nodes m k) := by
  rw [Nat.add_comm, moment, Function.iterate_add_apply]
  rfl

variable (r options nodes m) in
/-- From every moment the steps lead to the end of the run. -/
theorem exists_moment_eq_finished (k : Nat) :
    ∃ j, moment r options nodes m (k + j) =
      .finished (run r options nodes m).state (run r options nodes m).result := by
  obtain ⟨n, hn⟩ : ∃ n, moment r options nodes m n = _ := leads_run r options nodes m
  refine ⟨n, ?_⟩
  rw [Nat.add_comm, moment_add, hn, iterate_step_finished]

/-- A run ends as soon as a moment is reached at which it is over. -/
theorem run_eq_of_finished {k : Nat} {m' : Machine α σ} {result : Except Error Unit}
    (h : moment r options nodes m k = .finished m' result) :
    (run r options nodes m).state = m' ∧ (run r options nodes m).result = result := by
  obtain ⟨j, hj⟩ := exists_moment_eq_finished r options nodes m k
  rw [moment_add, h, iterate_step_finished] at hj
  exact Moment.finished.inj hj.symm

end Moments

/-! ### What steps keep -/

section Invariants

variable {r options} {admits : Command α → Prop} {P : Machine α σ → Prop}

/-- **One step** keeps an invariant if its command does, and the end of the file if it is that. -/
theorem Machine.Invariant.keeps_step_of_close (h : Invariant r options admits P) {x : Moment α σ}
    (hx : P x.machine)
    (hperform : ∀ m c rest bodies, x = .visiting m (.command c :: rest) bodies →
      P (Machine.perform r c m).state)
    (hclose : ∀ m flow, x = .leaving m flow [] → P (tell r.endOfFile m).state) :
    P (x.step r options).machine := by
  have hsettle (node : Node α) (rest : List (Node α)) (bodies : List (OpenBody α))
      (m : Machine α σ) (hm : P m) :
      ∀ result, P (settle options node rest bodies m result).machine
    | .ok .continue | .ok .halt => hm
    | .error e => by
      have hskip := h.skip node e m hm
      rw [settle]
      split <;> exact hskip
  cases x using Moment.cases_next with
  | nothing m bodies => exact hx
  | command m c rest bodies => exact hsettle _ _ _ _ (hperform m c rest bodies rfl) _
  | enclose m frame body rest bodies =>
      have hentered := h.enter frame body m hx
      rw [step_enclose, Moment.begin]
      split
      · exact hentered
      · exact hsettle _ _ _ _ hentered _
  | leave m flow b bodies => exact hsettle _ _ _ _ (h.leave b.frame b.body b.position m hx) _
  | close m flow => exact hclose m flow rfl
  | finished m result => exact hx

/-- One step keeps an invariant that the end of the file keeps. -/
theorem Machine.Invariant.keeps_step (h : Invariant r options admits P)
    (hend : Action.Keeps P (tell r.endOfFile)) {x : Moment α σ} (hx : P x.machine)
    (hperform : ∀ m c rest bodies, x = .visiting m (.command c :: rest) bodies →
      P (Machine.perform r c m).state) : P (x.step r options).machine := by
  refine h.keeps_step_of_close hx hperform fun m flow heq => hend m ?_
  subst heq
  exact hx

/-- **Invariants** hold at the moments of a run until it is over, whatever the receiver makes of the
end of the file. -/
theorem Machine.Invariant.of_not_finished (h : Invariant r options (fun _ => True) P)
    {nodes : List (Node α)} {m : Machine α σ} (hm : P m) {k : Nat}
    (hopen : ∀ m' result, moment r options nodes m k ≠ .finished m' result) :
    P (moment r options nodes m k).machine := by
  induction k with
  | zero => exact hm
  | succ k ih =>
      rw [moment_succ] at hopen ⊢
      have hbefore := ih fun m' result heq => hopen m' result (by rw [heq]; rfl)
      refine h.keeps_step_of_close hbefore (fun m' c rest bodies heq => ?_) fun m' flow heq => ?_
      · rw [heq] at hbefore
        exact h.perform c trivial m' hbefore
      · exact absurd (by rw [heq]; exact step_close m' flow) (hopen _ _)

/-- The moment after another one. A machine whose run is over may be asked for another run. -/
inductive Moment.Next (r : Receiver α σ) (options : Options) : Moment α σ → Moment α σ → Prop
  | step (x : Moment α σ) : Next r options x (x.step r options)
  | again (m : Machine α σ) (result : Except Error Unit) (nodes : List (Node α)) :
      Next r options (.finished m result) (.visiting m nodes [])

/-- One moment is the other or comes after it, in the same run or a later one. -/
abbrev Moment.Later (r : Receiver α σ) (options : Options) : Moment α σ → Moment α σ → Prop :=
  Relation.ReflTransGen (Moment.Next r options)

/-- What comes some steps after a moment comes later. -/
theorem later_iterate (k : Nat) (x : Moment α σ) : Later r options x ((step r options)^[k] x) := by
  induction k with
  | zero => exact .refl
  | succ k ih =>
      rw [Function.iterate_succ_apply']
      exact ih.tail (.step _)

/-- The end of a run comes after all its moments. -/
theorem later_run (r : Receiver α σ) (options : Options) (nodes : List (Node α)) (m : Machine α σ)
    (k : Nat) : Later r options (moment r options nodes m k)
      (.finished (run r options nodes m).state (run r options nodes m).result) := by
  obtain ⟨j, hj⟩ := exists_moment_eq_finished r options nodes m k
  rw [← hj, moment_add]
  exact later_iterate j _

/-- **Invariants** hold at all moments. -/
theorem Machine.Invariant.of_later (h : Invariant r options (fun _ => True) P)
    (hend : Action.Keeps P (tell r.endOfFile)) {x y : Moment α σ} (hlater : Later r options x y)
    (hx : P x.machine) : P y.machine := by
  induction hlater with
  | refl => exact hx
  | tail _ hnext ih =>
      cases hnext with
      | step =>
          refine h.keeps_step hend ih fun m c rest bodies heq => h.perform c trivial m ?_
          subst heq
          exact ih
      | again => exact ih

end Invariants

end Photoplot
