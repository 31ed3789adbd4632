import Photoplot.Identifier
import Photoplot.Proofs.Steps
import Photoplot.Scalar.Double

/-!
# Stops

A stop ends the run, however deep in bodies it stands. The open bodies are left, the innermost one
first, and the receiver is told of the end of each of them and then of the end of the file. No other
node is visited.

A receiver may refuse the end of a body. The stop is forgotten then, and the body is a node that
failed. If that error is one after which nodes are skipped, the run goes on after the body. Every
other error is passed on, so the run ends as it would have done.

## Main definitions

* `Command.Stops`: the commands that stop a run.
* `Options.Skips`: the errors after which nodes are skipped.
* `Machine.leaveAll`: leaving open bodies, whatever the receiver makes of it.

## Main results

* `leaving_of_halt`: how open bodies are left, by induction on the bodies.
* `halts_unless_skipped`: what follows a stop, and when the run goes on.
* `not_nothingAfterStop`: a stop after which a node is visited.
-/

namespace Photoplot

variable {α σ : Type}

/-- The commands that stop a run. -/
inductive Command.Stops (options : Options) : Command α → Prop
  | stop : Stops options .stop
  | endOfFile : Stops options .endOfFile
  | optionalStop : options.ignoreOptionalStop = false → Stops options .optionalStop

/-- After this error a node is skipped. -/
def Options.Skips (options : Options) (e : Error) : Prop :=
  options.errorMode ≠ .raise ∧ ¬ e.isFatal

namespace Machine

/-- A node whose error is skipped is skipped without another error. -/
theorem exists_skip_of_skips {options : Options} {e : Error} (h : options.Skips e) (node : Node α)
    (m : Machine α σ) : (skip options node e m).result = .ok () := by
  rw [skip, if_neg h.2]
  cases hmode : options.errorMode with
  | raise => exact absurd hmode h.1
  | ignore | warn => rfl

/-- An error that is not skipped is passed on. -/
theorem skip_of_not_skips {options : Options} {e : Error} (h : ¬ options.Skips e) (node : Node α) :
    (skip options node e : Action (Machine α σ) Unit) = Action.fail e := by
  rw [skip]
  split
  · rfl
  · rename_i hfatal
    have hraise : options.errorMode = .raise := not_not.mp fun hmode => h ⟨hmode, hfatal⟩
    rw [hraise]

/-- Leaves open bodies in order. The first error is the one that counts. -/
def leaveAll (r : Receiver α σ) : List (OpenBody α) → Action (Machine α σ) Unit
  | [] => pure ()
  | b :: bodies => do
    let result ← (leave r b).attempt
    let others ← (leaveAll r bodies).attempt
    Action.ofExcept result
    Action.ofExcept others

/-- Open bodies are left from the innermost one outwards. -/
theorem leaveAll_cons (r : Receiver α σ) (b : OpenBody α) (bodies : List (OpenBody α))
    (m : Machine α σ) :
    let others := leaveAll r bodies (leave r b m).state
    (leaveAll r (b :: bodies) m).state = others.state ∧
      (leaveAll r (b :: bodies) m).result = (leave r b m).result.bind fun _ => others.result := by
  intro others
  have hend (result result' : Except Error Unit) (s : Machine α σ) :
      let last := (do
        Action.ofExcept result
        Action.ofExcept result' : Action (Machine α σ) Unit) s
      last.state = s ∧ last.result = result.bind fun _ => result' := by
    cases result <;> exact ⟨rfl, rfl⟩
  have hlast := hend (leave r b m).result others.result others.state
  exact ⟨hlast.1, hlast.2⟩

variable [Scalar α]

/-- A command that stops the run does nothing else. -/
theorem step_of_stops {r : Receiver α σ} {options : Options} {c : Command α}
    (h : c.Stops options) (m : Machine α σ) (rest : List (Node α)) (bodies : List (OpenBody α)) :
    Moment.step r options (.visiting m (.command c :: rest) bodies) =
      .leaving m (.ok .halt) bodies := by
  cases h with
  | stop | endOfFile => rfl
  | optionalStop hoption =>
      rw [Moment.step_command, stops, if_neg (by simp [hoption])]
      rfl

end Machine

/-! ### Leaving bodies -/

open Machine Moment

variable [Scalar α] {r : Receiver α σ} {options : Options}

/-- What a node with a body ends with when its body was halted, or failed to be left. -/
theorem step_leaving_halt {m : Machine α σ} (result : Except Error Unit) {b : OpenBody α}
    (bodies : List (OpenBody α))
    (herror : ∀ e, (result.bind fun _ => (leave r b m).result) = .error e → ¬ options.Skips e) :
    step r options (.leaving m (result.map fun _ => .halt) (b :: bodies)) =
      .leaving (leave r b m).state
        ((result.bind fun _ => (leave r b m).result).map fun _ => .halt) bodies := by
  have hflow : ((result.map fun _ => Flow.halt).bind fun flow =>
      (leave r b m).result.map fun _ => flow) =
        (result.bind fun _ => (leave r b m).result).map fun _ => .halt := by
    cases result <;> rfl
  rw [step_leave, hflow]
  cases hresult : result.bind fun _ => (leave r b m).result with
  | ok _ => rfl
  | error e =>
      rw [Except.map, settle, skip_of_not_skips (herror e hresult)]
      rfl

/-- **Bodies are left** one after the other after a halt, unless an error comes up after which nodes
are skipped. The induction is on the open bodies; `result` is what the ends of the bodies inside of
them have given. -/
theorem leaving_of_halt {bodies : List (OpenBody α)} {m : Machine α σ} (result : Except Error Unit)
    (herror : ∀ e, (result.bind fun _ => (leaveAll r bodies m).result) = .error e →
      ¬ options.Skips e) {j : Nat} (hj : j ≤ bodies.length) :
    (step r options)^[j] (.leaving m (result.map fun _ => .halt) bodies) =
      .leaving (leaveAll r (bodies.take j) m).state
        ((result.bind fun _ => (leaveAll r (bodies.take j) m).result).map fun _ => .halt)
        (bodies.drop j) := by
  induction bodies generalizing m result j with
  | nil =>
      obtain rfl : j = 0 := Nat.le_zero.mp hj
      cases result <;> rfl
  | cons b bodies ih =>
      cases j with
      | zero => cases result <;> rfl
      | succ j =>
          have hassoc (others : Except Error Unit) :
              ((result.bind fun _ => (leave r b m).result).bind fun _ => others) =
                result.bind fun _ => (leave r b m).result.bind fun _ => others := by
            cases result <;> rfl
          rw [(leaveAll_cons r b bodies m).2] at herror
          have hhere : ∀ e, (result.bind fun _ => (leave r b m).result) = .error e →
              ¬ options.Skips e := by
            intro e he
            refine herror e ?_
            rw [← hassoc, he]
            rfl
          have hrest := ih (m := (leave r b m).state) (j := j)
            (result.bind fun _ => (leave r b m).result) (by rwa [hassoc])
            (Nat.le_of_succ_le_succ hj)
          rw [Function.iterate_succ_apply, step_leaving_halt result bodies hhere, hrest,
            List.take_succ_cons, List.drop_succ_cons, (leaveAll_cons r b _ m).1,
            (leaveAll_cons r b _ m).2, hassoc]

/-- **A halt is forgotten** at the first body that is not left properly, if the error is one after
which nodes are skipped. -/
theorem visiting_of_skips {bodies : List (OpenBody α)} {m : Machine α σ} {e : Error}
    (herror : (leaveAll r bodies m).result = .error e) (hskips : options.Skips e) :
    ∃ inner b outer m', bodies = inner ++ b :: outer ∧ (leaveAll r inner m).result = .ok () ∧
      (leave r b (leaveAll r inner m).state).result = .error e ∧
      (step r options)^[inner.length + 1] (.leaving m (.ok .halt) bodies) =
        .visiting m' b.after outer := by
  induction bodies generalizing m with
  | nil => cases herror
  | cons b bodies ih =>
      rw [(leaveAll_cons r b bodies m).2] at herror
      cases hleave : (leave r b m).result with
      | error e' =>
          rw [hleave] at herror
          obtain rfl : e' = e := Except.error.inj herror
          refine ⟨[], b, bodies, (skip options b.node e' (leave r b m).state).state, rfl, rfl,
            hleave, ?_⟩
          rw [List.length_nil, Function.iterate_one, step_leave, hleave, Except.bind, Except.map,
            settle, exists_skip_of_skips hskips]
      | ok _ =>
          rw [hleave] at herror
          obtain ⟨inner, b', outer, m', rfl, hinner, hlast, hsteps⟩ :=
            ih (m := (leave r b m).state) herror
          refine ⟨b :: inner, b', outer, m', rfl, ?_, ?_, ?_⟩
          · rw [(leaveAll_cons r b inner m).2, hleave]
            exact hinner
          · rwa [(leaveAll_cons r b inner m).1]
          · have hok : ((Except.ok ()).bind fun _ => (leave r b m).result) = .ok () := hleave
            have herror : ∀ e, ((Except.ok ()).bind fun _ => (leave r b m).result) = .error e →
                ¬ options.Skips e := by
              intro e he
              cases hok.symm.trans he
            have hstep := step_leaving_halt (.ok ()) (inner ++ b' :: outer) herror
            rw [hok] at hstep
            rw [List.length_cons, Function.iterate_succ_apply]
            exact (congrArg _ hstep).trans hsteps

/-! ### Stops -/

variable {nodes : List (Node α)} {m there : Machine α σ} {k : Nat} {c : Command α}
  {rest : List (Node α)} {bodies : List (OpenBody α)}

/-- **Nothing happens after a stop** but that the open bodies are left, the innermost one first, and
that the receiver is told of the end of the file: as long as no body is refused its end by an error
after which nodes are skipped. If one is, the run goes on with the nodes after that body. -/
theorem halts_unless_skipped
    (hvisit : moment r options nodes m k = .visiting there (.command c :: rest) bodies)
    (hstops : c.Stops options) :
    let left := leaveAll r bodies there
    let ended := tell r.endOfFile left.state
    ((∀ e, left.result = .error e → ¬ options.Skips e) →
      (∀ j ≤ bodies.length, moment r options nodes m (k + 1 + j) =
        .leaving (leaveAll r (bodies.take j) there).state
          ((leaveAll r (bodies.take j) there).result.map fun _ => .halt) (bodies.drop j)) ∧
      (∀ j, moment r options nodes m (k + 1 + bodies.length + 1 + j) =
        .finished ended.state (left.result.bind fun _ => ended.result)) ∧
      (run r options nodes m).state = ended.state ∧
      (run r options nodes m).result = left.result.bind fun _ => ended.result) ∧
    ∀ e, left.result = .error e → options.Skips e →
      ∃ inner b outer m', bodies = inner ++ b :: outer ∧
        (leaveAll r inner there).result = .ok () ∧
        (leave r b (leaveAll r inner there).state).result = .error e ∧
        moment r options nodes m (k + 1 + (inner.length + 1)) = .visiting m' b.after outer := by
  intro left ended
  have hhalt : moment r options nodes m (k + 1) = .leaving there (.ok .halt) bodies := by
    rw [moment_succ, hvisit, step_of_stops hstops]
  refine ⟨fun herror => ?_, fun e he hskips => ?_⟩
  · have hleaving : ∀ j ≤ bodies.length, moment r options nodes m (k + 1 + j) =
        .leaving (leaveAll r (bodies.take j) there).state
          ((leaveAll r (bodies.take j) there).result.map fun _ => .halt) (bodies.drop j) := by
      intro j hj
      rw [moment_add, hhalt]
      exact leaving_of_halt (.ok ()) herror hj
    have hfinished : moment r options nodes m (k + 1 + bodies.length + 1) =
        .finished ended.state (left.result.bind fun _ => ended.result) := by
      rw [moment_succ, hleaving _ (Nat.le_refl _), List.take_length, List.drop_length, step_close]
      cases left.result <;> rfl
    refine ⟨hleaving, fun j => ?_, run_eq_of_finished hfinished⟩
    rw [moment_add, hfinished, iterate_step_finished]
  · obtain ⟨inner, b, outer, m', hbodies, hinner, hlast, hsteps⟩ := visiting_of_skips he hskips
    refine ⟨inner, b, outer, m', hbodies, hinner, hlast, ?_⟩
    rw [moment_add, hhalt, hsteps]

/-! ### A refused end -/

/-- After a stop no other node is visited. -/
def NothingAfterStop (r : Receiver α σ) (options : Options) (nodes : List (Node α))
    (m : Machine α σ) : Prop :=
  ∀ k c there rest bodies,
    moment r options nodes m k = .visiting there (.command c :: rest) bodies → c.Stops options →
    ∀ j m' node rest' bodies',
      moment r options nodes m (k + 1 + j) ≠ .visiting m' (node :: rest') bodies'

/-- Notes what a receiver was told. -/
def note (call : String) : Action (List String) Unit := Action.modify (· ++ [call])

/-- A receiver that notes what it is told, and that refuses the end of every block. -/
def refusing : Receiver Float (List String) where
  apertureDefined _ _ := note "aperture"
  beginBlock _ _ := note "begin block"
  endBlock _ _ := do
    note "end block"
    Action.fail .contourNotOpen
  beginStepRepeat _ _ := note "begin step-and-repeat"
  endStepRepeat _ _ := note "end step-and-repeat"
  endOfFile _ := note "end of file"

/-- A stop in a block in a step-and-repeat, and an aperture after the block. -/
def stopInside : List (Node Float) :=
  [.stepRepeat ⟨2, 1, 1, 0⟩
    [.block ⟨"D12"⟩ [.command .stop], .command (.defineAperture ⟨⟨"D11"⟩, .circle ⟨1, none⟩⟩)]]

/-- When errors are ignored, the aperture after the block is defined although the stop came before
it. -/
theorem not_nothingAfterStop :
    ¬ NothingAfterStop refusing { errorMode := .ignore } stopInside (.initial []) :=
  fun h => h 2 .stop _ _ _ rfl .stop 1 _ _ _ _ rfl

/-- When errors are raised, both bodies are left and the file ends. -/
theorem halts_stopInside :
    (∃ there bodies, moment refusing {} stopInside (.initial []) 2 =
      .visiting there [.command .stop] bodies) ∧ Command.Stops (α := Float) {} .stop ∧
    (run refusing {} stopInside (.initial [])).result = .error .contourNotOpen ∧
    (run refusing {} stopInside (.initial [])).state.receiver =
      ["begin step-and-repeat", "begin block", "end block", "end step-and-repeat",
        "end of file"] := by
  have hvisit : moment refusing {} stopInside (.initial []) 2 =
      .visiting _ [.command .stop] _ := rfl
  obtain ⟨-, -, hstate, hresult⟩ :=
    (halts_unless_skipped hvisit .stop).1 fun e _ hskips => hskips.1 rfl
  exact ⟨⟨_, _, hvisit⟩, .stop, hresult, congrArg (fun m => m.receiver) hstate⟩

end Photoplot
