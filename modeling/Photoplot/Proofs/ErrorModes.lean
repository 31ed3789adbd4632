import Photoplot.Proofs.Halting
import Photoplot.Proofs.PictureLayers

/-!
# Error Modes

The error modes differ in what is done about a node that failed, and in nothing else. Two runs of a
program in different modes go through the same moments until an error is raised. From there on the
one that raises it leaves the open bodies and ends, and so do the others if the error is fatal;
otherwise they skip the node. What `warn` adds to `ignore` are the diagnostics, which no command
looks at.

## Origin convention

An error passes through all the nodes that are around the one it comes from. It is **raised** by
the node that fails by itself: a command, or a node with a body whose beginning or whose end is
refused (`Moment.Raises`).

## Main definitions

* `Options.inMode`: the same options in another error mode.
* `Machine.withDiagnostics`, `Moment.withDiagnostics`: other diagnostics.
* `Machine.Uncurious`: actions that have nothing to do with diagnostics.
* `Moment.Raises`: an error is about to be raised.

## Main results

* `step_withDiagnostics`: `ignore` goes through the moments of `warn` without the diagnostics.
* `step_inMode`: a step in which nothing is raised is the same in all modes.
* `errorModes_agree`: how the results of a program in the three modes are related.
-/

namespace Photoplot

variable {α σ β γ : Type}

/-- The same options in another error mode. -/
def Options.inMode (options : Options) (mode : ErrorMode) : Options :=
  { options with errorMode := mode }

/-! ### Diagnostics -/

namespace Machine

/-- The machine with other diagnostics. -/
def withDiagnostics (m : Machine α σ) (diagnostics : List Diagnostic) : Machine α σ :=
  { m with diagnostics }

/-- An action that neither reads diagnostics nor changes them. -/
def Uncurious (a : Action (Machine α σ) β) : Prop :=
  ∀ m diagnostics, (a (withDiagnostics m diagnostics)).result = (a m).result ∧
    (a (withDiagnostics m diagnostics)).state = (a m).state.withDiagnostics diagnostics

/-- A sequence does not look at diagnostics if its parts do not. -/
theorem Uncurious.bind {a : Action (Machine α σ) β} {f : β → Action (Machine α σ) γ}
    (ha : Uncurious a) (hf : ∀ b, Uncurious (f b)) : Uncurious (a >>= f) := by
  intro m diagnostics
  obtain ⟨hresult, hstate⟩ := ha m diagnostics
  cases hr : (a m).result with
  | error e =>
      rw [hr] at hresult
      rw [(Action.bind_eq_of_error hr).1, (Action.bind_eq_of_error hr).2,
        (Action.bind_eq_of_error hresult).1, (Action.bind_eq_of_error hresult).2]
      exact ⟨rfl, hstate⟩
  | ok b =>
      rw [hr] at hresult
      rw [(Action.bind_eq_of_ok hr).1, (Action.bind_eq_of_ok hr).2,
        (Action.bind_eq_of_ok hresult).1, (Action.bind_eq_of_ok hresult).2, hstate]
      exact hf b _ diagnostics

/-- To catch an error is not to look at diagnostics. -/
theorem Uncurious.attempt {a : Action (Machine α σ) β} (ha : Uncurious a) :
    Uncurious a.attempt :=
  fun m diagnostics => ⟨congrArg Except.ok (ha m diagnostics).1, (ha m diagnostics).2⟩

/-- The diagnostics are as they were. -/
theorem Uncurious.diagnostics_eq {a : Action (Machine α σ) β} (ha : Uncurious a)
    (m : Machine α σ) : (a m).state.diagnostics = m.diagnostics :=
  congrArg (·.diagnostics) (ha m m.diagnostics).2

/-- What holds of the diagnostics is kept. -/
theorem Uncurious.keeps {P : List Diagnostic → Prop} {a : Action (Machine α σ) β}
    (ha : Uncurious a) : Action.Keeps (fun m => P m.diagnostics) a := by
  intro m hm
  show P _
  rwa [ha.diagnostics_eq m]

/-- A value that is ready takes no look at diagnostics. -/
theorem Uncurious.pure (b : β) : Uncurious (pure b : Action (Machine α σ) β) :=
  fun _ _ => ⟨rfl, rfl⟩

/-- A failure takes no look at diagnostics. -/
theorem uncurious_fail (e : Error) : Uncurious (Action.fail e : Action (Machine α σ) β) :=
  fun _ _ => ⟨rfl, rfl⟩

/-- A given result takes no look at diagnostics. -/
theorem uncurious_ofExcept (result : Except Error β) :
    Uncurious (Action.ofExcept result : Action (Machine α σ) β) :=
  fun _ _ => ⟨rfl, rfl⟩

/-- A change of the graphics state takes no look at diagnostics. -/
theorem uncurious_modifyState (f : GraphicsState α → GraphicsState α) :
    Uncurious (modifyState f : Action (Machine α σ) Unit) :=
  fun _ _ => ⟨rfl, rfl⟩

/-- An action on the graphics state takes no look at diagnostics. -/
theorem uncurious_onState (a : Action (GraphicsState α) β) :
    Uncurious (onState a : Action (Machine α σ) β) :=
  fun _ _ => ⟨rfl, rfl⟩

/-- A callback takes no look at diagnostics. -/
theorem uncurious_tell (callback : GraphicsState α → Action σ Unit) : Uncurious (tell callback) :=
  fun _ _ => ⟨rfl, rfl⟩

/-- To look the route up takes no look at diagnostics. -/
theorem uncurious_reroute : Uncurious (reroute : Action (Machine α σ) Unit) :=
  fun _ _ => ⟨rfl, rfl⟩

/-- To select an aperture takes no look at diagnostics. -/
theorem uncurious_select (id : ApertureId) :
    Uncurious (select id : Action (Machine α σ) Unit) := by
  refine Uncurious.bind (fun _ _ => ⟨rfl, rfl⟩) fun _ => ?_
  refine Uncurious.bind (fun _ _ => ⟨rfl, rfl⟩) fun found => ?_
  split
  · exact (uncurious_ofExcept _).bind fun target => fun _ _ => ⟨rfl, rfl⟩
  · exact .pure _

/-- To look the selected aperture up anew takes no look at diagnostics. -/
theorem uncurious_reselect (id : ApertureId) :
    Uncurious (reselect id : Action (Machine α σ) Unit) := by
  refine Uncurious.bind (fun _ _ => ⟨rfl, rfl⟩) fun selected => ?_
  split
  · exact uncurious_select id
  · exact .pure _

/-- To begin a body takes no look at diagnostics. -/
theorem uncurious_enter (r : Receiver α σ) (body : List (Node α)) (frame : Frame α) :
    Uncurious (enter r body frame) := by
  cases frame with
  | block id =>
      refine (uncurious_modifyState _).bind fun _ => ?_
      exact (uncurious_reselect id).bind fun _ => uncurious_tell _
  | stepRepeat grid => exact uncurious_tell _

/-- To end a body takes no look at diagnostics. -/
theorem uncurious_leave (r : Receiver α σ) (b : OpenBody α) : Uncurious (leave r b) :=
  (uncurious_modifyState _).bind fun _ => uncurious_tell _

variable [Scalar α]

/-- A draw command takes no look at diagnostics. -/
theorem uncurious_draw (r : Receiver α σ) (c : Coordinates) : Uncurious (draw r c) := by
  have hsend : Uncurious (do
      let route ← Action.gets (fun m : Machine α σ => m.route)
      tell fun s => route.send r s s.segment
      modifyState GraphicsState.commit) := by
    refine Uncurious.bind (fun _ _ => ⟨rfl, rfl⟩) fun route => ?_
    exact (uncurious_tell _).bind fun _ => uncurious_modifyState _
  refine (uncurious_onState _).bind fun _ => ?_
  refine Uncurious.bind (fun _ _ => ⟨rfl, rfl⟩) fun s => ?_
  dsimp only
  split
  · exact hsend
  · exact (uncurious_ofExcept _).bind fun _ => hsend

/-- A move takes no look at diagnostics. -/
theorem uncurious_move (r : Receiver α σ) (c : Coordinates) : Uncurious (move r c) := by
  refine (uncurious_onState _).bind fun _ => ?_
  refine Uncurious.bind (fun _ _ => ⟨rfl, rfl⟩) fun inRegion => ?_
  dsimp only
  split
  · exact (uncurious_tell _).bind fun _ => uncurious_modifyState _
  · exact uncurious_modifyState _

/-- A flash takes no look at diagnostics. -/
theorem uncurious_flash (r : Receiver α σ) (c : Coordinates) : Uncurious (flash r c) := by
  refine (uncurious_onState _).bind fun _ => ?_
  refine Uncurious.bind (fun _ _ => ⟨rfl, rfl⟩) fun s => ?_
  split
  · exact fun _ _ => ⟨rfl, rfl⟩
  refine (uncurious_ofExcept _).bind fun resolved => ?_
  refine Uncurious.bind (fun _ _ => ⟨rfl, rfl⟩) fun target => ?_
  split
  · exact uncurious_fail _
  · exact (uncurious_tell _).bind fun _ => uncurious_modifyState _

/-- **Commands** have nothing to do with diagnostics. -/
theorem uncurious_perform (r : Receiver α σ) (c : Command α) : Uncurious (perform r c) := by
  cases c with
  | format f => exact uncurious_onState _
  | defineAperture d =>
      refine (uncurious_onState _).bind fun _ => ?_
      exact (uncurious_tell _).bind fun _ => uncurious_reselect d.id
  | selectAperture id => exact uncurious_select id
  | draw c => exact uncurious_draw r c
  | move c => exact uncurious_move r c
  | flash c => exact uncurious_flash r c
  | plotMode mode | quadrant q => exact (uncurious_modifyState _).bind fun _ => uncurious_reroute
  | beginRegion =>
      refine (uncurious_modifyState _).bind fun _ => ?_
      exact uncurious_reroute.bind fun _ => uncurious_tell _
  | endRegion =>
      refine (uncurious_tell _).attempt.bind fun result => ?_
      refine (uncurious_modifyState _).bind fun _ => ?_
      exact uncurious_reroute.bind fun _ => uncurious_ofExcept _
  | comment _ | stop | optionalStop | endOfFile => exact .pure _
  | unit u | legacyUnit u | defineMacro m | polarity p | mirroring m | rotation degrees
  | scale factor | «attribute» kind a | deleteAttribute name => exact uncurious_modifyState _

end Machine

/-! ### With and without diagnostics -/

open Machine Moment

/-- The moment with other diagnostics. -/
def Moment.withDiagnostics (diagnostics : List Diagnostic) : Moment α σ → Moment α σ
  | visiting m nodes bodies => visiting (m.withDiagnostics diagnostics) nodes bodies
  | leaving m flow bodies => leaving (m.withDiagnostics diagnostics) flow bodies
  | finished m result => finished (m.withDiagnostics diagnostics) result

variable [Scalar α] {r : Receiver α σ} {options : Options} {nodes : List (Node α)}
  {m : Machine α σ} {mode : ErrorMode}

omit [Scalar α] in
/-- After a node a run that ignores errors goes on as one that warns, but for the diagnostics. -/
theorem settle_withDiagnostics (diagnostics : List Diagnostic) (node : Node α)
    (rest : List (Node α)) (bodies : List (OpenBody α)) (m : Machine α σ) :
    ∀ result, settle (options.inMode .ignore) node rest bodies (m.withDiagnostics diagnostics)
        result =
      (settle (options.inMode .warn) node rest bodies m result).withDiagnostics diagnostics
  | .ok .continue | .ok .halt => rfl
  | .error e => by
    rw [settle, settle, skip, skip]
    by_cases hfatal : e.isFatal
    · rw [if_pos hfatal, if_pos hfatal]
      rfl
    · rw [if_neg hfatal, if_neg hfatal]
      rfl

/-- **In step.** A step of `ignore` is the step of `warn` without the diagnostics. -/
theorem step_withDiagnostics (diagnostics : List Diagnostic) (x : Moment α σ) :
    (x.withDiagnostics diagnostics).step r (options.inMode .ignore) =
      (x.step r (options.inMode .warn)).withDiagnostics diagnostics := by
  have hsettle (a : Action (Machine α σ) Unit) (ha : Uncurious a) (m : Machine α σ) (node : Node α)
      (rest : List (Node α)) (bodies : List (OpenBody α))
      (flow : Except Error Unit → Except Error Flow) :
      settle (options.inMode .ignore) node rest bodies (a (m.withDiagnostics diagnostics)).state
          (flow (a (m.withDiagnostics diagnostics)).result) =
        (settle (options.inMode .warn) node rest bodies (a m).state
          (flow (a m).result)).withDiagnostics diagnostics := by
    rw [(ha m diagnostics).1, (ha m diagnostics).2, settle_withDiagnostics]
  cases x using Moment.cases_next with
  | nothing m bodies | close m flow | finished m result => rfl
  | command m c rest bodies =>
      exact hsettle (perform r c) (uncurious_perform r c) m _ _ _
        fun result => result.map fun _ => stops options c
  | enclose m frame body rest bodies =>
      obtain ⟨hresult, hstate⟩ := uncurious_enter r body frame m diagnostics
      rw [Moment.withDiagnostics, step_enclose, step_enclose, Moment.begin, Moment.begin, hresult,
        hstate]
      cases (enter r body frame m).result with
      | ok _ => rfl
      | error e => exact settle_withDiagnostics diagnostics _ _ _ _ _
  | leave m flow b bodies =>
      exact hsettle (leave r b) (uncurious_leave r b) m _ _ _
        fun result => flow.bind fun flow => result.map fun _ => flow

/-- The moments of `ignore` are those of `warn` without the diagnostics. -/
theorem moment_ignore (r : Receiver α σ) (options : Options) (nodes : List (Node α))
    (m : Machine α σ) (k : Nat) :
    moment r (options.inMode .ignore) nodes m k =
      (moment r (options.inMode .warn) nodes m k).withDiagnostics m.diagnostics := by
  induction k with
  | zero => rfl
  | succ k ih => rw [moment_succ, moment_succ, ih, step_withDiagnostics]

/-- **`ignore` and `warn`** end alike, apart from the diagnostics. -/
theorem run_ignore (r : Receiver α σ) (options : Options) (nodes : List (Node α))
    (m : Machine α σ) :
    (run r (options.inMode .ignore) nodes m).result =
        (run r (options.inMode .warn) nodes m).result ∧
      (run r (options.inMode .ignore) nodes m).state =
        (run r (options.inMode .warn) nodes m).state.withDiagnostics m.diagnostics := by
  obtain ⟨n, hn⟩ := exists_moment_eq_finished r (options.inMode .warn) nodes m 0
  have hignore := moment_ignore r options nodes m (0 + n)
  rw [hn] at hignore
  obtain ⟨hstate, hresult⟩ := run_eq_of_finished hignore
  exact ⟨hresult, hstate⟩

/-! ### Errors that are raised -/

/-- A node is about to raise an error: a command, or a body whose beginning or end is refused. -/
inductive Moment.Raises (r : Receiver α σ) : Moment α σ → Node α → Error → Prop
  | command {m : Machine α σ} {c : Command α} {rest : List (Node α)} {bodies : List (OpenBody α)}
      {e : Error} : (perform r c m).result = .error e →
      Raises r (visiting m (.command c :: rest) bodies) (.command c) e
  | enter {m : Machine α σ} (frame : Frame α) {body rest : List (Node α)}
      {bodies : List (OpenBody α)} {e : Error} : (Machine.enter r body frame m).result = .error e →
      Raises r (visiting m (frame.enclose body :: rest) bodies) (frame.enclose body) e
  | leave {m : Machine α σ} {flow : Flow} {b : OpenBody α} {bodies : List (OpenBody α)}
      {e : Error} : (Machine.leave r b m).result = .error e →
      Raises r (leaving m (.ok flow) (b :: bodies)) b.node e

/-- An error passes through the open bodies. -/
def Moment.Passes (e : Error) (x : Moment α σ) : Prop := ∃ m bodies, x = leaving m (.error e) bodies

/-- An error passes through the open bodies or has ended the run. -/
def Moment.Falls (e : Error) (x : Moment α σ) : Prop := x.Passes e ∨ ∃ m, x = finished m (.error e)

omit [Scalar α] in
/-- After a node that did not fail, or failed with a fatal error, a run goes on the same way in
every mode. -/
theorem settle_inMode {flow : Except Error Flow} (hflow : ∀ e, flow = .error e → e.isFatal)
    (node : Node α) (rest : List (Node α)) (bodies : List (OpenBody α)) (m : Machine α σ)
    (mode mode' : ErrorMode) :
    settle (options.inMode mode) node rest bodies m flow =
      settle (options.inMode mode') node rest bodies m flow := by
  rcases flow with e | flow | flow
  · rw [settle, settle, skip, skip, if_pos (hflow e rfl), if_pos (hflow e rfl)]
  · rfl
  · rfl

omit [Scalar α] in
/-- Whether a command stops the run does not depend on the mode. -/
theorem stops_inMode (options : Options) (mode : ErrorMode) (c : Command α) :
    stops (options.inMode mode) c = stops options c := by
  cases c <;> rfl

omit [Scalar α] in
/-- A body fails because of what is in it, or else because it is refused its end. -/
theorem eq_error_of_leave {flow : Except Error Flow} {b : OpenBody α} {e : Error}
    (h : (flow.bind fun flow => (leave r b m).result.map fun _ => flow) = .error e) :
    flow = .error e ∨ ∃ flow', flow = .ok flow' ∧ (leave r b m).result = .error e := by
  cases flow with
  | error e' => exact .inl h
  | ok flow =>
      refine .inr ⟨flow, rfl, ?_⟩
      cases hleave : (leave r b m).result with
      | ok _ =>
          simp only [Except.bind, hleave] at h
          cases h
      | error e' =>
          simp only [Except.bind, hleave] at h
          obtain ⟨⟩ := h
          rfl

/-- **All modes** make the same step, unless an error that is not fatal is raised or passes. -/
theorem step_inMode {x : Moment α σ} (hraises : ∀ node e, x.Raises r node e → e.isFatal)
    (hpasses : ∀ e, x.Passes e → e.isFatal) (mode mode' : ErrorMode) :
    x.step r (options.inMode mode) = x.step r (options.inMode mode') := by
  cases x using Moment.cases_next with
  | nothing m bodies | close m flow | finished m result => rfl
  | command m c rest bodies =>
      rw [step, step, stops_inMode, stops_inMode]
      refine settle_inMode (fun e he => ?_) _ _ _ _ _ _
      cases hperform : (perform r c m).result with
      | ok _ =>
          rw [hperform] at he
          cases he
      | error e' =>
          rw [hperform] at he
          obtain rfl : e' = e := Except.error.inj he
          exact hraises _ _ (.command hperform)
  | enclose m frame body rest bodies =>
      rw [step_enclose, step_enclose, Moment.begin, Moment.begin]
      cases hentered : (enter r body frame m).result with
      | ok _ => rfl
      | error e =>
          refine settle_inMode (fun e' he => ?_) _ _ _ _ _ _
          obtain rfl : e = e' := Except.error.inj he
          exact hraises _ e (.enter frame hentered)
  | leave m flow b bodies =>
      rw [step, step]
      refine settle_inMode (fun e he => ?_) _ _ _ _ _ _
      rcases eq_error_of_leave he with rfl | ⟨flow, rfl, hleave⟩
      · exact hpasses e ⟨_, _, rfl⟩
      · exact hraises _ _ (.leave hleave)

/-- A node that raises an error ends with it. -/
theorem step_of_raises {x : Moment α σ} {node : Node α} {e : Error} (h : x.Raises r node e) :
    ∃ m rest bodies, m.diagnostics = x.machine.diagnostics ∧
      ∀ options, x.step r options = settle options node rest bodies m (.error e) := by
  cases h with
  | @command m c rest bodies _ he =>
      refine ⟨_, rest, bodies, (uncurious_perform r c).diagnostics_eq m, fun options => ?_⟩
      rw [step, he]
      rfl
  | @enter m frame body rest bodies _ he =>
      refine ⟨_, rest, bodies, (uncurious_enter r body frame).diagnostics_eq m, fun options => ?_⟩
      rw [step_enclose, Moment.begin, he]
  | @leave m flow b bodies _ he =>
      refine ⟨_, b.after, bodies, (uncurious_leave r b).diagnostics_eq m, fun options => ?_⟩
      rw [step, he]
      rfl

/-- After an error that no node is skipped for, nothing else is raised. -/
theorem Moment.Falls.step {x : Moment α σ} {e : Error} (h : x.Falls e) (he : ¬ options.Skips e) :
    (x.step r options).Falls e := by
  rcases h with ⟨m, bodies, rfl⟩ | ⟨m, rfl⟩
  · cases bodies with
    | nil => exact .inr ⟨_, rfl⟩
    | cons b bodies =>
        refine .inl ⟨(leave r b m).state, bodies, ?_⟩
        rw [step_leave, Except.bind, settle, skip_of_not_skips he]
        rfl
  · exact .inr ⟨m, rfl⟩

/-- While an error passes, no other one is raised. -/
theorem Moment.Falls.not_raises {x : Moment α σ} {node : Node α} {e e' : Error} (h : x.Falls e) :
    ¬ x.Raises r node e' := by
  rcases h with ⟨m, bodies, rfl⟩ | ⟨m, rfl⟩ <;> exact fun hraises => nomatch hraises

omit [Scalar α] in
/-- Only the error of a node passes after it. -/
theorem eq_error_of_passes_settle {node : Node α} {rest : List (Node α)}
    {bodies : List (OpenBody α)} {m : Machine α σ} {flow : Except Error Flow} {e : Error}
    (h : (settle options node rest bodies m flow).Passes e) : flow = .error e := by
  obtain ⟨m', bodies', h⟩ := h
  rcases flow with e' | flow | flow
  · rw [settle] at h
    by_cases hskips : options.Skips e'
    · rw [exists_skip_of_skips hskips] at h
      cases h
    · rw [skip_of_not_skips hskips] at h
      exact (Moment.leaving.inj h).2.1
  · cases h
  · cases h

/-- An error that passes was raised or passed before. -/
theorem passes_step {x : Moment α σ} {e : Error} (h : (x.step r options).Passes e) :
    x.Passes e ∨ ∃ node, x.Raises r node e := by
  cases x using Moment.cases_next with
  | nothing m bodies | close m flow | finished m result =>
      obtain ⟨m', bodies', h⟩ := h
      cases h
  | command m c rest bodies =>
      have hend : (perform r c m).result.map (fun _ => stops options c) = .error e :=
        eq_error_of_passes_settle h
      cases hperform : (perform r c m).result with
      | ok _ =>
          rw [hperform] at hend
          cases hend
      | error e' =>
          rw [hperform] at hend
          obtain ⟨⟩ := hend
          exact .inr ⟨_, .command hperform⟩
  | enclose m frame body rest bodies =>
      rw [step_enclose, Moment.begin] at h
      cases hentered : (enter r body frame m).result with
      | ok _ =>
          rw [hentered] at h
          obtain ⟨m', bodies', h⟩ := h
          cases h
      | error e' =>
          rw [hentered] at h
          obtain ⟨⟩ := eq_error_of_passes_settle h
          exact .inr ⟨_, .enter frame hentered⟩
  | leave m flow b bodies =>
      rw [Moment.step] at h
      rcases eq_error_of_leave (eq_error_of_passes_settle h) with rfl | ⟨flow, rfl, hleave⟩
      · exact .inl ⟨m, _, rfl⟩
      · exact .inr ⟨_, .leave hleave⟩

/-! ### Runs in two modes -/

/-- An error that passes through open bodies was raised earlier in the run. -/
theorem exists_raises_of_passes {k : Nat} {e : Error}
    (h : (moment r options nodes m k).Passes e) :
    ∃ j < k, ∃ node, (moment r options nodes m j).Raises r node e := by
  induction k with
  | zero =>
      obtain ⟨m', bodies, h⟩ := h
      cases h
  | succ k ih =>
      rw [moment_succ] at h
      rcases passes_step h with h | ⟨node, h⟩
      · obtain ⟨j, hj, hraises⟩ := ih h
        exact ⟨j, Nat.lt_trans hj (Nat.lt_succ_self k), hraises⟩
      · exact ⟨k, Nat.lt_succ_self k, node, h⟩

/-- The modes go through the same moments as long as only fatal errors are raised. -/
theorem moment_inMode (mode' : ErrorMode) {k : Nat}
    (h : ∀ j < k, ∀ node e,
      (moment r (options.inMode mode) nodes m j).Raises r node e → e.isFatal) :
    moment r (options.inMode mode') nodes m k = moment r (options.inMode mode) nodes m k := by
  induction k with
  | zero => rfl
  | succ k ih =>
      rw [moment_succ, moment_succ, ih fun j hj => h j (Nat.lt_trans hj (Nat.lt_succ_self k))]
      refine step_inMode (h k (Nat.lt_succ_self k)) (fun e hpasses => ?_) _ _
      obtain ⟨j, hj, node, hraises⟩ := exists_raises_of_passes hpasses
      exact h j (Nat.lt_trans hj (Nat.lt_succ_self k)) node e hraises

/-- Runs that go through the same moments end alike. -/
theorem run_inMode (mode' : ErrorMode)
    (h : ∀ k node e, (moment r (options.inMode mode) nodes m k).Raises r node e → e.isFatal) :
    (run r (options.inMode mode') nodes m).result =
        (run r (options.inMode mode) nodes m).result ∧
      (run r (options.inMode mode') nodes m).state =
        (run r (options.inMode mode) nodes m).state := by
  obtain ⟨n, hn⟩ := leads_run r (options.inMode mode) nodes m
  have hsame := moment_inMode mode' fun j (_ : j < n) => h j
  obtain ⟨hstate, hresult⟩ := run_eq_of_finished (hsame.trans hn)
  exact ⟨hresult, hstate⟩

/-- A run fails with an error that was raised, or at the end of the file. -/
theorem exists_raises_of_run {e : Error} (h : (run r options nodes m).result = .error e) :
    (∃ k node, (moment r options nodes m k).Raises r node e) ∨
      ∃ m', (tell r.endOfFile m').result = .error e := by
  rw [(run_eq r options nodes m).2] at h
  obtain ⟨n, hn⟩ := leads_visitAll r options nodes m []
  cases hresult : (visitAll r options nodes m).result with
  | ok flow =>
      rw [hresult] at h
      exact .inr ⟨_, h⟩
  | error e' =>
      rw [hresult] at h hn
      obtain ⟨⟩ := h
      obtain ⟨k, -, hraises⟩ := exists_raises_of_passes (k := n) ⟨_, _, hn⟩
      exact .inl ⟨k, hraises⟩

/-! ### Where errors are raised -/

/-- Nothing is skipped when errors are raised. -/
theorem not_skips_raise (options : Options) (e : Error) : ¬ (options.inMode .raise).Skips e :=
  fun h => h.1 rfl

/-- After an error was raised nothing else is, when errors are raised. -/
theorem falls_of_raises {k : Nat} {node : Node α} {e : Error}
    (h : (moment r (options.inMode .raise) nodes m k).Raises r node e) (j : Nat) :
    (moment r (options.inMode .raise) nodes m (k + 1 + j)).Falls e := by
  induction j with
  | zero =>
      obtain ⟨m', rest, bodies, -, hstep⟩ := step_of_raises h
      rw [Nat.add_zero, moment_succ, hstep, settle, skip_of_not_skips (not_skips_raise _ e)]
      exact .inl ⟨m', bodies, rfl⟩
  | succ j ih =>
      rw [← Nat.add_assoc, moment_succ]
      exact ih.step (not_skips_raise _ e)

/-- When errors are raised, a run fails with the error that is raised. -/
theorem result_run_of_raises {k : Nat} {node : Node α} {e : Error}
    (h : (moment r (options.inMode .raise) nodes m k).Raises r node e) :
    (run r (options.inMode .raise) nodes m).result = .error e := by
  obtain ⟨j, hj⟩ := exists_moment_eq_finished r (options.inMode .raise) nodes m (k + 1)
  have hfalls := falls_of_raises h j
  rw [hj] at hfalls
  rcases hfalls with ⟨m', bodies, heq⟩ | ⟨m', heq⟩
  · cases heq
  · exact (Moment.finished.inj heq).2

/-- When errors are raised, at most one is. -/
theorem eq_of_raises {j k : Nat} {node node' : Node α} {e e' : Error}
    (h : (moment r (options.inMode .raise) nodes m j).Raises r node e)
    (h' : (moment r (options.inMode .raise) nodes m k).Raises r node' e') : j = k := by
  have hafter {i i' : Nat} {node node' : Node α} {e e' : Error}
      (h : (moment r (options.inMode .raise) nodes m i).Raises r node e)
      (h' : (moment r (options.inMode .raise) nodes m i').Raises r node' e') : ¬ i < i' := by
    intro hlt
    obtain ⟨d, rfl⟩ := Nat.exists_eq_add_of_lt hlt
    rw [Nat.add_right_comm] at h'
    exact (falls_of_raises h d).not_raises h'
  have hle := hafter h h'
  have hge := hafter h' h
  omega

/-! ### Diagnostics of a run -/

/-- Diagnostics change only when nodes are skipped. -/
theorem invariant_diagnostics {P : List Diagnostic → Prop}
    (hskip : ∀ node e,
      Action.Keeps (fun m : Machine α σ => P m.diagnostics) (skip options node e)) :
    Invariant r options (fun _ => True) fun m => P m.diagnostics where
  perform c _ := (uncurious_perform r c).keeps
  skip := hskip
  enter frame body := (uncurious_enter r body frame).keeps
  leave _ _ _ _ hm := hm

/-- When errors are raised, there are no new diagnostics. -/
theorem diagnostics_eq_of_later {x y : Moment α σ} (h : Later r (options.inMode .raise) x y) :
    y.machine.diagnostics = x.machine.diagnostics := by
  have hinvariant : Invariant r (options.inMode .raise) (fun _ => True)
      fun m => m.diagnostics = x.machine.diagnostics :=
    invariant_diagnostics (P := (· = _)) fun node e m hm => by
      rwa [skip_of_not_skips (not_skips_raise _ _)]
  exact hinvariant.of_later (fun _ hm => hm) h rfl

/-- Diagnostics are never taken back. -/
theorem isPrefix_of_later {x y : Moment α σ} (h : Later r options x y) :
    x.machine.diagnostics <+: y.machine.diagnostics := by
  have hinvariant : Invariant r options (fun _ => True)
      fun m => x.machine.diagnostics <+: m.diagnostics := by
    refine invariant_diagnostics (P := (_ <+: ·)) fun node e m hm => ?_
    rw [skip]
    split
    · exact hm
    · cases options.errorMode with
      | raise | ignore => exact hm
      | warn => exact hm.trans (List.prefix_append _ _)
  exact hinvariant.of_later (fun _ hm => hm) h List.prefix_rfl

/-- **A fatal error** that is raised ends the run in every mode, before anything is skipped. -/
theorem run_inMode_of_raises {k : Nat} {node : Node α} {e : Error}
    (h : (moment r (options.inMode .raise) nodes m k).Raises r node e) (hfatal : e.isFatal)
    (mode : ErrorMode) :
    (run r (options.inMode mode) nodes m).result = .error e ∧
      (run r (options.inMode mode) nodes m).state.diagnostics = m.diagnostics := by
  -- What is raised later is the same error, so the modes never part.
  have hraises : ∀ j node' e',
      (moment r (options.inMode .raise) nodes m j).Raises r node' e' → e'.isFatal := by
    intro j node' e' h'
    obtain rfl : e = e' :=
      Except.error.inj ((result_run_of_raises h).symm.trans (result_run_of_raises h'))
    exact hfatal
  obtain ⟨hresult, hstate⟩ := run_inMode mode hraises
  rw [hresult, hstate]
  exact ⟨result_run_of_raises h, diagnostics_eq_of_later (later_run r _ nodes m 0)⟩

/-- **The first diagnostic** is the error that is raised, if it is not fatal. -/
theorem isPrefix_of_raises {k : Nat} {node : Node α} {e : Error}
    (h : (moment r (options.inMode .raise) nodes m k).Raises r node e) (hfatal : ¬ e.isFatal) :
    m.diagnostics ++ [⟨node.code, e⟩] <+:
      (run r (options.inMode .warn) nodes m).state.diagnostics := by
  -- Nothing was raised before, so the modes have not parted yet.
  have hsame : moment r (options.inMode .warn) nodes m k =
      moment r (options.inMode .raise) nodes m k := by
    refine moment_inMode _ fun j hj node' e' h' => ?_
    obtain rfl := eq_of_raises h h'
    exact absurd hj (Nat.lt_irrefl _)
  obtain ⟨m', rest, bodies, hm', hstep⟩ := step_of_raises h
  have hbefore : m'.diagnostics = m.diagnostics :=
    hm'.trans (diagnostics_eq_of_later (later_iterate k (.visiting m nodes [])))
  have hskipped : (moment r (options.inMode .warn) nodes m (k + 1)).machine.diagnostics =
      m.diagnostics ++ [⟨node.code, e⟩] := by
    rw [moment_succ, hsame, hstep, settle, skip, if_neg hfatal, ← hbefore]
    rfl
  rw [← hskipped]
  exact isPrefix_of_later (later_run r _ nodes m (k + 1))

/-! ### Programs in the three modes -/

variable [Legible α]

/-- The composer is told of the end of a file without refusing it. -/
theorem exists_raises_iff (options : Options) (nodes : List (Node α))
    (m : Machine α (Composer α)) (e : Error) :
    (run Composer.receiver (options.inMode .raise) nodes m).result = .error e ↔
      ∃ k node,
        (moment Composer.receiver (options.inMode .raise) nodes m k).Raises Composer.receiver node
          e := by
  refine ⟨fun h => ?_, fun ⟨k, node, h⟩ => result_run_of_raises h⟩
  rcases exists_raises_of_run h with h | ⟨m', h⟩
  · exact h
  · cases h

/-- The picture of a program is made of what its run leaves to the receiver. -/
theorem map_fst_result_compile (options : Options) (nodes : List (Node α)) :
    ((compile options nodes).run ()).result.map Prod.fst =
      (run Composer.receiver options nodes (.initial .initial)).result.bind fun _ =>
        Picture.ofLayers (run Composer.receiver options nodes
          (.initial .initial)).state.receiver.allLayers := by
  rw [result_compile, composed]
  unfold Action.run
  generalize run Composer.receiver options nodes (.initial .initial) = ended
  cases ended.result with
  | error e => rfl
  | ok _ =>
      show ((Picture.ofLayers ended.state.receiver.allLayers).map _).map _ = Picture.ofLayers _
      cases Picture.ofLayers ended.state.receiver.allLayers <;> rfl

/-- **One semantics.** `ignore` and `warn` leave the same machine and the same picture or error,
apart from the diagnostics. A program that is run without an error when errors are raised gives the
same in all modes, without diagnostics. Otherwise exactly the error fails the run that some node
raises; it fails the other runs just as early if it is fatal, and else it is the first
diagnostic. -/
theorem errorModes_agree (options : Options) (nodes : List (Node α)) :
    let walk (mode : ErrorMode) :=
      run Composer.receiver (options.inMode mode) nodes (.initial .initial)
    let compiled (mode : ErrorMode) := ((compile (options.inMode mode) nodes).run ()).result
    let Raised (node : Node α) (e : Error) :=
      ∃ k, (moment Composer.receiver (options.inMode .raise) nodes (.initial .initial) k).Raises
        Composer.receiver node e
    ((walk .ignore).result = (walk .warn).result ∧
      (walk .ignore).state = (walk .warn).state.withDiagnostics [] ∧
      (compiled .ignore).map Prod.fst = (compiled .warn).map Prod.fst) ∧
    ((walk .raise).result = .ok () →
      ∀ mode, compiled mode = compiled .raise ∧ (walk mode).state.diagnostics = []) ∧
    (∀ e, (walk .raise).result = .error e ↔ ∃ node, Raised node e) ∧
    ∀ node e, Raised node e →
      (e.isFatal ∧ (walk .warn).result = .error e ∧ (walk .warn).state.diagnostics = []) ∨
      (¬ e.isFatal ∧ (walk .warn).state.diagnostics.head? = some ⟨node.code, e⟩) := by
  intro walk compiled Raised
  have hignore := run_ignore Composer.receiver options nodes (.initial .initial)
  refine ⟨⟨hignore.1, hignore.2, ?_⟩, fun hok mode => ?_, fun e => ?_, ?_⟩
  · show ((compile _ nodes).run ()).result.map _ = ((compile _ nodes).run ()).result.map _
    rw [map_fst_result_compile, map_fst_result_compile, hignore.1, hignore.2]
    rfl
  · have hraises : ∀ k node e,
        (moment Composer.receiver (options.inMode .raise) nodes (.initial .initial) k).Raises
          Composer.receiver node e → e.isFatal := by
      intro k node e h
      cases hok.symm.trans (result_run_of_raises h)
    obtain ⟨hresult, hstate⟩ := run_inMode mode hraises
    refine ⟨?_, ?_⟩
    · show ((compile _ _).run ()).result = ((compile _ _).run ()).result
      rw [result_compile, result_compile, composed, composed]
      unfold Action.run
      rw [hresult, hstate]
    · exact (congrArg (·.diagnostics) hstate).trans
        (diagnostics_eq_of_later (later_run _ _ nodes (initial Composer.initial) 0))
  · exact (exists_raises_iff options nodes (.initial .initial) e).trans exists_comm
  · rintro node e ⟨k, h⟩
    by_cases hfatal : e.isFatal
    · exact .inl ⟨hfatal, run_inMode_of_raises h hfatal .warn⟩
    · obtain ⟨later, hlater⟩ := isPrefix_of_raises h hfatal
      exact .inr ⟨hfatal, (congrArg List.head? hlater).symm⟩

/-- A block with a command in it. -/
def blockOf (c : Command Float) : List (Node Float) := [.block ⟨"D12"⟩ [.command c]]

/-- A program without errors is compiled alike. A flash without an aperture is what a run fails
with, or what the first diagnostic tells of. -/
theorem errorModes_blockOf :
    let flash : Command Float := .flash ⟨none, none, none, none⟩
    let walk (mode : ErrorMode) (c : Command Float) :=
      run Composer.receiver { errorMode := mode } (blockOf c) (initial Composer.initial)
    let compiled (mode : ErrorMode) (c : Command Float) :=
      ((compile { errorMode := mode } (blockOf c)).run ()).result
    ((walk .raise .beginRegion).result = .ok () ∧
      compiled .warn .beginRegion = compiled .raise .beginRegion) ∧
    (walk .raise flash).result = .error .apertureNotSelected ∧
    (walk .warn flash).state.diagnostics.head? = some ⟨"D03", .apertureNotSelected⟩ := by
  intro flash walk compiled
  have hok : (walk .raise .beginRegion).result = .ok () := rfl
  have hraises : (moment Composer.receiver {} (blockOf flash) (initial Composer.initial) 1).Raises
      Composer.receiver (.command flash) .apertureNotSelected := .command rfl
  obtain ⟨-, hsame, -, -⟩ := errorModes_agree {} (blockOf .beginRegion)
  obtain ⟨-, -, hresult, hfirst⟩ := errorModes_agree {} (blockOf flash)
  refine ⟨⟨hok, (hsame hok .warn).1⟩, (hresult _).mpr ⟨_, 1, hraises⟩, ?_⟩
  rcases hfirst _ _ ⟨1, hraises⟩ with ⟨hfatal, -⟩ | ⟨-, hhead⟩
  · cases hfatal
  · exact hhead

end Photoplot
