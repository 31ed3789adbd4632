import Photoplot.Proofs.ErrorModes
import Photoplot.Proofs.FailedCommands

/-!
# Regions and Contours

Whether a region is open is known twice: the graphics state has a flag, which the route of draw
commands follows, and the composer has a contour. A command that begins or ends a region changes
both, one after the other, and an error may come in between. Still they agree whenever a command is
done, until the composer drops the contour at the end of the file.

So a command that needs a contour finds one, except the end of a region that was never begun.

## Failure convention

An action is **unhindered** when it does not fail for want of a contour. It may fail for any other
reason.

## Main definitions

* `Action.Unhindered`: actions that do not fail for want of a contour.
* `Moment.EndsNoRegion`: an end of a region is next, and no region is open.

## Main results

* `Machine.unhindered_perform`: commands other than the end of a region, one case per command.
* `exists_raises_of_mem_diagnostics`: a diagnostic tells of an error that was raised.
* `contour_inStep`: the flag and the contour, and what is raised for want of a contour.
-/

namespace Photoplot

variable {α σ β γ : Type}

namespace Action

/-- From states with `P` an action does not fail for want of a contour. -/
abbrev Unhindered (P : σ → Prop) (a : Action σ β) : Prop :=
  a.Ensures P (fun _ _ => True) fun e _ => e ≠ .contourNotOpen

variable {P : σ → Prop}

/-- An action that never fails is unhindered. -/
theorem Unhindered.of_ok {a : Action σ β} (h : ∀ s, ∃ b, (a s).result = .ok b) :
    Unhindered P a := by
  intro s _
  obtain ⟨b, hb⟩ := h s
  rw [hb]
  trivial

/-- An action is unhindered when its errors are all others. -/
theorem Unhindered.of_ne {a : Action σ β}
    (h : ∀ s, P s → (a s).result ≠ .error .contourNotOpen) : Unhindered P a := by
  intro s hs
  cases hresult : (a s).result with
  | ok b => trivial
  | error e =>
      rintro rfl
      exact h s hs hresult

/-- An unhindered action does not fail for want of a contour. -/
theorem Unhindered.ne {a : Action σ β} (h : Unhindered P a) {s : σ} (hs : P s) :
    (a s).result ≠ .error .contourNotOpen := by
  intro hresult
  have hstep := h s hs
  rw [hresult] at hstep
  exact hstep rfl

/-- Any other failure is unhindered. -/
theorem Unhindered.fail {e : Error} (h : e ≠ .contourNotOpen) :
    Unhindered P (fail e : Action σ β) :=
  fun _ _ => h

/-- A result that is not this error is unhindered. -/
theorem Unhindered.ofExcept {r : Except Error β} (h : r ≠ .error .contourNotOpen) :
    Unhindered P (ofExcept r : Action σ β) :=
  .of_ne fun _ _ => h

/-- Fatal errors have nothing to do with contours. -/
theorem Unhindered.of_isFatal {a : Action σ β}
    (h : a.Ensures P (fun _ _ => True) fun e _ => e.isFatal) : Unhindered P a := by
  refine h.weaken (fun _ _ h => h) fun e _ hfatal => ?_
  rintro rfl
  cases hfatal

/-- A sequence of which the first action keeps `P`. -/
theorem Unhindered.bind {a : Action σ β} {f : β → Action σ γ} (ha : Unhindered P a)
    (hkeeps : Keeps P a) (hf : ∀ b, Unhindered P (f b)) : Unhindered P (a >>= f) := by
  refine Ensures.bind (M := fun _ => P) (fun s hs => ?_) hf
  have hstep := ha s hs
  have hkept := hkeeps s hs
  cases hresult : (a s).result with
  | ok b => exact hkept
  | error e =>
      rw [hresult] at hstep
      exact hstep

/-- A sequence without anything that could be kept. -/
theorem Unhindered.seq {a : Action σ β} {f : β → Action σ γ} (ha : Unhindered (fun _ => True) a)
    (hf : ∀ b, Unhindered (fun _ => True) (f b)) : Unhindered (fun _ => True) (a >>= f) :=
  ha.bind (fun _ _ => trivial) hf

/-- Unhindered actions for all elements of a list are unhindered. -/
theorem Unhindered.mapM {f : β → Action σ γ} (h : ∀ b, Unhindered (fun _ => True) (f b))
    (items : List β) : Unhindered (fun _ => True) (items.mapM f) := by
  induction items with
  | nil => exact .of_ok fun _ => ⟨[], rfl⟩
  | cons b rest ih =>
      rw [List.mapM_cons]
      exact (h b).seq fun _ => ih.seq fun _ => .of_ok fun _ => ⟨_, rfl⟩

end Action

open Photoplot.Action

/-! ### Graphics states -/

namespace GraphicsState

/-- Resolving an aperture does not ask for a contour. -/
theorem resolve_ne (s : GraphicsState α) (id : ApertureId) :
    s.resolve id ≠ .error .contourNotOpen := by
  unfold resolve
  split
  · simp
  · split <;> simp

/-- Resolving the selected aperture does not ask for a contour. -/
theorem current_ne (s : GraphicsState α) : s.current ≠ .error .contourNotOpen := by
  unfold current
  split
  · simp
  · exact s.resolve_ne _

/-- A format is set without a contour. -/
theorem unhindered_setFormat (f : CoordinateFormat) :
    Unhindered (fun _ => True) (setFormat f : Action (GraphicsState α) Unit) := by
  refine Unhindered.seq (.of_ok fun _ => ⟨_, rfl⟩) fun s => ?_
  split
  · exact .fail (by simp)
  · exact .of_ok fun _ => ⟨_, rfl⟩

/-- The graphics state takes a definition without a contour. -/
theorem unhindered_defineAperture (d : ApertureDefinition α) :
    Unhindered (fun _ => True) (defineAperture d) := by
  refine Unhindered.seq (.of_ok fun _ => ⟨_, rfl⟩) fun s => ?_
  split
  · dsimp only
    split
    · exact .of_ok fun _ => ⟨_, rfl⟩
    · exact Unhindered.seq (.fail (by simp)) fun _ => .of_ok fun _ => ⟨_, rfl⟩
  · exact .of_ok fun _ => ⟨_, rfl⟩

/-- Coordinates are read without a contour. -/
theorem unhindered_load [Scalar α] (c : Coordinates) :
    Unhindered (fun _ => True) (load c : Action (GraphicsState α) Unit) := by
  refine Unhindered.seq (.of_ok fun _ => ⟨_, rfl⟩) fun _ => ?_
  split
  · exact .of_ok fun _ => ⟨_, rfl⟩
  refine Unhindered.seq (.of_ok fun _ => ⟨_, rfl⟩) fun s => ?_
  split
  · exact .fail (by simp)
  · rename_i f _
    refine Unhindered.seq (.ofExcept ?_) fun _ => .of_ok fun _ => ⟨_, rfl⟩
    cases (unpackAll f c : Except CoordinateError (Pending α)) <;> nofun

end GraphicsState

/-! ### Libraries -/

namespace Library

variable [Scalar α] [Legible α]

/-- Variants are built without a contour. -/
theorem unhindered_build (t : Transform α) (depth : Nat) (path : List LayerId) (base : LayerId) :
    Unhindered (fun _ => True) (build t depth path base) := by
  induction depth generalizing path base with
  | zero => exact .fail (by simp)
  | succ depth ih =>
      rw [build]
      refine Unhindered.seq (.of_ok fun _ => ⟨_, rfl⟩) fun lib => ?_
      split
      · exact .of_ok fun _ => ⟨_, rfl⟩
      split
      · exact .fail (by simp)
      split
      · exact .fail (by simp)
      refine Unhindered.seq (.mapM (fun item => ?_) _) fun items => .of_ok fun _ => ⟨_, rfl⟩
      cases item with
      | shape s => exact .of_ok fun _ => ⟨_, rfl⟩
      | paste p => exact (ih _ p.source).seq fun _ => .of_ok fun _ => ⟨_, rfl⟩

/-- A variant is looked up without a contour. -/
theorem unhindered_variant (t : Transform α) (base : LayerId) :
    Unhindered (fun _ => True) (variant t base) := by
  refine Unhindered.seq (.of_ok fun _ => ⟨_, rfl⟩) fun lib => ?_
  split
  · exact .fail (by simp)
  split
  · exact .of_ok fun _ => ⟨_, rfl⟩
  · exact unhindered_build _ _ _ _

end Library

/-! ### Composers -/

/-- Segments that are sent along these routes extend a contour. -/
def Route.extendsContour : Route → Bool
  | regionLine | regionArc .. => true
  | drawLine | drawArc .. => false

/-- A contour is extended inside of regions. -/
theorem Route.extendsContour_ofModes (mode : PlotMode) (quadrant : Quadrant) (inRegion : Bool) :
    (ofModes mode quadrant inRegion).extendsContour = inRegion := by
  cases inRegion <;> cases quadrant <;> rcases mode with _ | _ | _ <;> rfl

namespace Composer

variable [Scalar α]

/-- The width of a stroke is found without a contour. -/
theorem unhindered_strokeWidth (s : GraphicsState α) (start stop : Point α) :
    Unhindered (fun _ => True) (strokeWidth s start stop : Action σ (Option α)) := by
  refine Unhindered.seq (.ofExcept s.current_ne) fun resolved => ?_
  cases resolved with
  | block b => exact .of_ok fun _ => ⟨_, rfl⟩
  | aperture d =>
      dsimp only
      split
      · exact .of_ok fun _ => ⟨_, rfl⟩
      · exact .of_ok fun _ => ⟨_, rfl⟩
      · exact .of_ok fun _ => ⟨_, rfl⟩
      · exact .of_ok fun _ => ⟨_, rfl⟩
      · exact .of_ok fun _ => ⟨_, rfl⟩
      · exact .fail (by simp)

/-- A stroke is added without a contour. -/
theorem unhindered_stroke (s : GraphicsState α) (segment : Segment α)
    (strokes : α → List (Geometry α)) : Unhindered (fun _ => True) (stroke s segment strokes) := by
  refine (unhindered_strokeWidth s _ _).seq fun width => ?_
  cases width with
  | none => exact .of_ok fun _ => ⟨_, rfl⟩
  | some width => exact .of_ok fun _ => ⟨_, rfl⟩

omit [Scalar α] in
/-- A contour that is open can be extended. -/
theorem unhindered_extendContour (start : Point α) (edges : List (Edge α)) :
    Unhindered (fun c => c.contour.isSome) (extendContour start edges) := by
  refine .of_ne fun c hc => ?_
  have hopen : c.contour.isNone = false := by simpa using hc
  rw [extendContour, gets_bind, hopen]
  simp [Action.modify]

/-- A contour that is open can be flushed. -/
theorem unhindered_flushContour (s : GraphicsState α) :
    Unhindered (fun c => c.contour.isSome) (flushContour s) := by
  refine .of_ne fun c hc hresult => ?_
  rw [contour_eq_none_of_flushContour hresult] at hc
  cases hc

variable [Legible α]

/-- The composer defines an aperture without a contour. -/
theorem unhindered_defineAperture {s : GraphicsState α} {d : ApertureDefinition α} :
    Unhindered (fun _ => True) (defineAperture s d) := by
  have hshapes : Unhindered (fun _ => True)
      (apertureShapes s d.template : Action (Composer α) (Option (List (Shape α)))) := by
    unfold apertureShapes
    split
    · exact .of_ok fun _ => ⟨_, rfl⟩
    · exact .of_ok fun _ => ⟨_, rfl⟩
    · exact .of_ok fun _ => ⟨_, rfl⟩
    · exact .of_ok fun _ => ⟨_, rfl⟩
    · split
      · exact .fail (by simp)
      · rename_i m _
        refine Unhindered.seq ?_ fun _ => .of_ok fun _ => ⟨_, rfl⟩
        refine (m.evaluates_shapes _).weaken (fun _ _ h => h) fun e _ he => ?_
        obtain ⟨x, rfl⟩ := he
        simp
    · exact .of_ok fun _ => ⟨_, rfl⟩
  refine hshapes.seq fun shapes => ?_
  cases shapes with
  | none => exact .of_ok fun _ => ⟨_, rfl⟩
  | some shapes => exact .of_ok fun _ => ⟨_, rfl⟩

/-- The composer flashes without a contour. -/
theorem unhindered_flash (s : GraphicsState α) (id : ApertureId) (center : Point α) :
    Unhindered (fun _ => True) (flash s id center) := by
  refine Unhindered.seq (.of_ok fun _ => ⟨_, rfl⟩) fun isOpen => ?_
  split
  · exact .fail (by simp)
  · refine Unhindered.seq (.of_ne fun c _ => ?_) fun _ => .of_ok fun _ => ⟨_, rfl⟩
    exact (Library.unhindered_variant s.transform _).ne (s := c.toLibrary) trivial

omit [Scalar α] in
/-- A block ends without a contour. -/
theorem unhindered_endBlock (b : Block α) : Unhindered (fun _ => True) (endBlock b) := by
  refine Unhindered.seq (.of_ok fun _ => ⟨_, rfl⟩) fun c => ?_
  split
  · exact .fail (by simp)
  split
  · exact .of_ok fun _ => ⟨_, rfl⟩
  · exact .fail (by simp)

omit [Legible α] in
/-- A step-and-repeat ends without a contour. -/
theorem unhindered_endStepRepeat (r : StepRepeat α) :
    Unhindered (fun _ => True) (endStepRepeat r) := by
  refine Unhindered.seq (.of_ok fun _ => ⟨_, rfl⟩) fun c => ?_
  split
  · exact .fail (by simp)
  · exact .of_ok fun _ => ⟨_, rfl⟩

/-- A route that extends a contour needs one. -/
theorem unhindered_send (s : GraphicsState α) (segment : Segment α) (route : Route) :
    Unhindered (fun c => c.contour.isSome = route.extendsContour)
      (route.send receiver s segment) := by
  cases route with
  | drawLine => exact (unhindered_stroke s segment _).strengthen fun _ _ => trivial
  | drawArc direction quadrant =>
      exact (unhindered_stroke s segment _).strengthen fun _ _ => trivial
  | regionLine => exact unhindered_extendContour _ _
  | regionArc direction quadrant => exact unhindered_extendContour _ _

end Composer

/-! ### Machines -/

namespace Machine

/-- A callback is unhindered when it does not fail for want of a contour. -/
theorem unhindered_tell {P : Machine α σ → Prop} {callback : GraphicsState α → Action σ Unit}
    (h : ∀ m, P m → (callback m.state m.receiver).result ≠ .error .contourNotOpen) :
    Unhindered P (tell callback) :=
  .of_ne h

/-- What is unhindered on the graphics state is unhindered on the machine. -/
theorem unhindered_onState {P : Machine α σ → Prop} {a : Action (GraphicsState α) β}
    (h : Unhindered (fun _ => True) a) : Unhindered P (onState a) :=
  .of_ne fun m _ => h.ne (s := m.state) trivial

variable [Scalar α] [Legible α]

/-- A draw command finds the contour that its route asks for. -/
theorem unhindered_draw (c : Coordinates) :
    Unhindered InOrder (draw (Composer.receiver (α := α)) c) := by
  have hsend : Unhindered InOrder (do
      let route ← Action.gets (fun m : Machine α (Composer α) => m.route)
      tell fun s => route.send Composer.receiver s s.segment
      modifyState GraphicsState.commit) := by
    refine Ensures.bind (M := fun route m => m.InOrder ∧ m.route = route)
      (fun m hm => ⟨hm, rfl⟩) fun route => ?_
    refine Ensures.bind (M := fun _ _ => True) (unhindered_tell fun m hm => ?_)
      fun _ _ _ => trivial
    obtain ⟨hm, rfl⟩ := hm
    refine (Composer.unhindered_send m.state _ m.route).ne ?_
    rw [hm.route, Route.extendsContour_ofModes, hm.contour]
  refine (unhindered_onState (GraphicsState.unhindered_load c)).bind (keeps_inOrder_load c)
    fun _ => ?_
  refine Unhindered.bind (.of_ok fun _ => ⟨_, rfl⟩) (Keeps.gets _) fun s => ?_
  dsimp only
  split
  · exact hsend
  · exact (Unhindered.ofExcept s.current_ne).bind (Keeps.ofExcept _) fun _ => hsend

/-- A move in a region finds the contour that it flushes. -/
theorem unhindered_move (c : Coordinates) :
    Unhindered InOrder (move (Composer.receiver (α := α)) c) := by
  refine (unhindered_onState (GraphicsState.unhindered_load c)).bind (keeps_inOrder_load c)
    fun _ => ?_
  refine Ensures.bind (M := fun inRegion m => m.InOrder ∧ m.state.inRegion = inRegion)
    (fun m hm => ⟨hm, rfl⟩) fun inRegion => ?_
  cases inRegion with
  | false => exact Unhindered.of_ok fun _ => ⟨_, rfl⟩
  | true =>
      refine Ensures.bind (M := fun _ _ => True) (unhindered_tell fun m hm => ?_)
        fun _ _ _ => trivial
      refine (Composer.unhindered_flushContour m.state).ne ?_
      rw [← hm.1.contour, hm.2]

/-- A flash needs no contour. -/
theorem unhindered_flash (c : Coordinates) :
    Unhindered InOrder (flash (Composer.receiver (α := α)) c) := by
  refine (unhindered_onState (GraphicsState.unhindered_load c)).bind (keeps_inOrder_load c)
    fun _ => ?_
  refine Unhindered.bind (.of_ok fun _ => ⟨_, rfl⟩) (Keeps.gets _) fun s => ?_
  split
  · exact .of_ok fun _ => ⟨_, rfl⟩
  refine (Unhindered.ofExcept s.current_ne).bind (Keeps.ofExcept _) fun resolved => ?_
  refine Unhindered.bind (.of_ok fun _ => ⟨_, rfl⟩) (Keeps.gets _) fun target => ?_
  split
  · exact .fail (by simp)
  · refine Ensures.bind (M := fun _ _ => True) (unhindered_tell fun m _ => ?_)
      fun _ _ _ => trivial
    exact (Composer.unhindered_flash m.state _ _).ne trivial

/-- A definition needs no contour. -/
theorem unhindered_defineAperture (d : ApertureDefinition α) :
    Unhindered (fun _ => True) (defineAperture Composer.receiver d) := by
  refine (unhindered_onState (GraphicsState.unhindered_defineAperture d)).seq fun _ => ?_
  refine Unhindered.seq (unhindered_tell fun m _ => ?_) fun _ => .of_isFatal (ensures_reselect _)
  exact Composer.unhindered_defineAperture.ne trivial

/-- **Commands** do not fail for want of a contour, unless they end a region. -/
theorem unhindered_perform {c : Command α} (hc : c ≠ .endRegion) :
    Unhindered InOrder (perform Composer.receiver c) := by
  cases c with
  | format f => exact unhindered_onState (GraphicsState.unhindered_setFormat f)
  | defineAperture d => exact (unhindered_defineAperture d).strengthen fun _ _ => trivial
  | selectAperture id => exact .of_isFatal (ensures_select id)
  | draw c => exact unhindered_draw c
  | move c => exact unhindered_move c
  | flash c => exact unhindered_flash c
  | endRegion => exact absurd rfl hc
  | unit u | legacyUnit u | defineMacro m | plotMode mode | quadrant q | beginRegion | polarity p
  | mirroring m | rotation degrees | scale factor | «attribute» kind a | deleteAttribute name
  | comment _ | stop | optionalStop | endOfFile => exact .of_ok fun _ => ⟨(), rfl⟩

/-- The end of a region fails for want of a contour when no region is open. -/
theorem endRegion_eq_error_iff {m : Machine α (Composer α)} (hm : m.InOrder) :
    (perform Composer.receiver .endRegion m).result = .error .contourNotOpen ↔
      m.state.inRegion = false := by
  have hresult : (perform Composer.receiver .endRegion m).result =
      (Composer.flushContour m.state m.receiver).result := rfl
  rw [hresult, hm.contour]
  constructor
  · intro h
    rw [Composer.contour_eq_none_of_flushContour h]
    rfl
  · intro h
    have hnone : m.receiver.contour = none := by simpa using h
    rw [Composer.flushContour, gets_bind]
    simp only [hnone]
    rfl

/-- Entering a body needs no contour. -/
theorem unhindered_enter (body : List (Node α)) (frame : Frame α) :
    Unhindered (fun _ => True) (enter Composer.receiver body frame) := by
  cases frame with
  | block id =>
      refine Unhindered.seq (.of_ok fun _ => ⟨_, rfl⟩) fun _ => ?_
      refine Unhindered.seq (.of_isFatal (ensures_reselect id)) fun _ => ?_
      exact .of_ok fun _ => ⟨_, rfl⟩
  | stepRepeat grid => exact .of_ok fun _ => ⟨_, rfl⟩

/-- Leaving a body needs no contour. -/
theorem unhindered_leave (b : OpenBody α) :
    Unhindered (fun _ => True) (leave Composer.receiver b) := by
  refine Unhindered.seq (.of_ok fun _ => ⟨_, rfl⟩) fun _ => unhindered_tell fun m _ => ?_
  cases b.frame with
  | block id => exact (Composer.unhindered_endBlock _).ne trivial
  | stepRepeat grid => exact (Composer.unhindered_endStepRepeat _).ne trivial

end Machine

/-! ### What diagnostics tell of -/

section Diagnostics

open Moment

variable [Scalar α] {r : Receiver α σ} {options : Options} {nodes : List (Node α)}
  {m : Machine α σ}

omit [Scalar α] in
/-- A diagnostic is added for the error that a node ends with, if the node is skipped. -/
theorem mem_diagnostics_settle {node : Node α} {rest : List (Node α)} {bodies : List (OpenBody α)}
    {flow : Except Error Flow} {d : Diagnostic}
    (hd : d ∈ (settle options node rest bodies m flow).machine.diagnostics) :
    d ∈ m.diagnostics ∨ flow = .error d.error ∧ d.code = node.code ∧ options.Skips d.error := by
  rcases flow with e | flow | flow
  · by_cases hskips : options.Skips e
    · rw [settle, Machine.exists_skip_of_skips hskips] at hd
      rw [Machine.skip, if_neg hskips.2] at hd
      cases hmode : options.errorMode with
      | raise => exact absurd hmode hskips.1
      | ignore =>
          rw [hmode] at hd
          exact .inl hd
      | warn =>
          rw [hmode] at hd
          rcases List.mem_append.mp hd with hd | hd
          · exact .inl hd
          · obtain rfl := List.mem_singleton.mp hd
            exact .inr ⟨rfl, rfl, hskips⟩
    · rw [settle, Machine.skip_of_not_skips hskips] at hd
      exact .inl hd
  · exact .inl hd
  · exact .inl hd

omit [Scalar α] in
/-- An error that is passed on was not skipped. -/
theorem not_skips_of_passes_settle {node : Node α} {rest : List (Node α)}
    {bodies : List (OpenBody α)} {flow : Except Error Flow} {e : Error}
    (h : (settle options node rest bodies m flow).Passes e) : ¬ options.Skips e := by
  obtain rfl := eq_error_of_passes_settle h
  obtain ⟨m', bodies', h⟩ := h
  intro hskips
  rw [settle, Machine.exists_skip_of_skips hskips] at h
  cases h

/-- No node is skipped for an error that passes through open bodies. -/
theorem not_skips_of_passes {k : Nat} {e : Error} (h : (moment r options nodes m k).Passes e) :
    ¬ options.Skips e := by
  cases k with
  | zero =>
      obtain ⟨m', bodies, h⟩ := h
      cases h
  | succ k =>
      rw [moment_succ] at h
      cases hx : moment r options nodes m k using Moment.cases_next with
      | nothing m' bodies | close m' flow | finished m' result =>
          rw [hx] at h
          obtain ⟨m'', bodies', h⟩ := h
          cases h
      | command m' c rest bodies =>
          rw [hx, step_command] at h
          exact not_skips_of_passes_settle h
      | enclose m' frame body rest bodies =>
          rw [hx, step_enclose, Moment.begin] at h
          cases hentered : (Machine.enter r body frame m').result with
          | ok _ =>
              rw [hentered] at h
              obtain ⟨m'', bodies', h⟩ := h
              cases h
          | error e' =>
              rw [hentered] at h
              exact not_skips_of_passes_settle h
      | leave m' flow b bodies =>
          rw [hx, step_leave] at h
          exact not_skips_of_passes_settle h

/-- **Diagnostics** of a step are those from before it, or tell of the error that is raised. -/
theorem mem_diagnostics_step {x : Moment α σ} {d : Diagnostic}
    (hpasses : ∀ e, x.Passes e → ¬ options.Skips e)
    (hd : d ∈ (x.step r options).machine.diagnostics) :
    d ∈ x.machine.diagnostics ∨ ∃ node, x.Raises r node d.error ∧ d.code = node.code := by
  cases x using Moment.cases_next with
  | nothing m bodies | close m flow | finished m result => exact .inl hd
  | command m c rest bodies =>
      rw [step_command] at hd
      rcases mem_diagnostics_settle hd with hd | ⟨hflow, hcode, -⟩
      · exact .inl ((Machine.uncurious_perform r c).diagnostics_eq m ▸ hd)
      · refine .inr ⟨_, .command ?_, hcode⟩
        cases hperform : (Machine.perform r c m).result with
        | ok _ =>
            rw [hperform] at hflow
            cases hflow
        | error e =>
            rw [hperform] at hflow
            exact congrArg Except.error (Except.error.inj hflow)
  | enclose m frame body rest bodies =>
      have hsame := (Machine.uncurious_enter r body frame).diagnostics_eq m
      rw [step_enclose, Moment.begin] at hd
      cases hentered : (Machine.enter r body frame m).result with
      | ok _ =>
          rw [hentered] at hd
          exact .inl (hsame ▸ hd)
      | error e =>
          rw [hentered] at hd
          rcases mem_diagnostics_settle hd with hd | ⟨hflow, hcode, -⟩
          · exact .inl (hsame ▸ hd)
          · obtain rfl := Except.error.inj hflow
            exact .inr ⟨_, .enter frame hentered, hcode⟩
  | leave m flow b bodies =>
      rw [step_leave] at hd
      rcases mem_diagnostics_settle hd with hd | ⟨hflow, hcode, hskips⟩
      · exact .inl ((Machine.uncurious_leave r b).diagnostics_eq m ▸ hd)
      · rcases eq_error_of_leave hflow with rfl | ⟨flow, rfl, hleave⟩
        · exact absurd hskips (hpasses _ ⟨_, _, rfl⟩)
        · exact .inr ⟨_, .leave hleave, hcode⟩

/-- **Diagnostics** of a run tell of errors that were raised. -/
theorem exists_raises_of_mem_diagnostics {k : Nat} {d : Diagnostic}
    (hd : d ∈ (moment r options nodes m k).machine.diagnostics) :
    d ∈ m.diagnostics ∨ ∃ j < k, ∃ node,
      (moment r options nodes m j).Raises r node d.error ∧ d.code = node.code := by
  induction k with
  | zero => exact .inl hd
  | succ k ih =>
      rw [moment_succ] at hd
      rcases mem_diagnostics_step (fun _ => not_skips_of_passes) hd with hd | ⟨node, hraises, hcode⟩
      · refine (ih hd).imp_right ?_
        rintro ⟨j, hj, hnode⟩
        exact ⟨j, Nat.lt_trans hj (Nat.lt_succ_self k), hnode⟩
      · exact .inr ⟨k, Nat.lt_succ_self k, node, hraises, hcode⟩

end Diagnostics

/-! ### Regions of a run -/

open Machine

/-- The end of a region comes next, and no region is open. -/
def Moment.EndsNoRegion (x : Moment α σ) : Prop :=
  ∃ m rest bodies, x = .visiting m (.command .endRegion :: rest) bodies ∧ m.state.inRegion = false

variable [Scalar α] [Legible α]

/-- What is raised for want of a contour. -/
theorem raises_contourNotOpen_iff {x : Moment α (Composer α)} (hx : x.machine.InOrder)
    {node : Node α} :
    x.Raises Composer.receiver node .contourNotOpen ↔
      node = .command .endRegion ∧ x.EndsNoRegion := by
  constructor
  · intro h
    cases h with
    | @command m c rest bodies _ he =>
        obtain rfl : c = .endRegion := by
          by_contra hc
          exact (unhindered_perform hc).ne hx he
        exact ⟨rfl, m, rest, bodies, rfl, (endRegion_eq_error_iff hx).mp he⟩
    | @enter m frame body rest bodies _ he =>
        exact absurd he ((unhindered_enter body frame).ne trivial)
    | @leave m flow b bodies _ he => exact absurd he ((unhindered_leave b).ne trivial)
  · rintro ⟨rfl, m, rest, bodies, rfl, hregion⟩
    exact .command ((endRegion_eq_error_iff hx).mpr hregion)

/-- **The flag and the contour** agree at every moment of a program until its run is over. So the
want of a contour is raised by the end of a region that is not open and by no other node: whether it
is what the program fails with, or is told of by a diagnostic. -/
theorem contour_inStep (options : Options) (nodes : List (Node α)) :
    let reached (k : Nat) : Moment α (Composer α) :=
      moment Composer.receiver options nodes (.initial .initial) k
    (∀ k, (∀ m result, reached k ≠ .finished m result) →
      ((reached k).machine.state.inRegion = true ↔
        (reached k).machine.receiver.contour.isSome = true)) ∧
    (∀ k node, (reached k).Raises Composer.receiver node .contourNotOpen ↔
      node = .command .endRegion ∧ (reached k).EndsNoRegion) ∧
    (∀ k, ∀ d ∈ (reached k).machine.diagnostics, d.error = .contourNotOpen →
      d.code = "G37" ∧ ∃ j < k, (reached j).EndsNoRegion) ∧
    (((compile options nodes).run ()).result = .error .contourNotOpen →
      ∃ k, (reached k).EndsNoRegion) := by
  intro reached
  have horder (k : Nat) (hk : ∀ m result, reached k ≠ .finished m result) :
      (reached k).machine.InOrder :=
    (invariant_inOrder options).of_not_finished settled_initial.1 hk
  have hraises (k : Nat) (node : Node α) :
      (reached k).Raises Composer.receiver node .contourNotOpen ↔
        node = .command .endRegion ∧ (reached k).EndsNoRegion := by
    by_cases hk : ∀ m result, reached k ≠ .finished m result
    · exact raises_contourNotOpen_iff (horder k hk)
    · -- nothing is raised when the run is over
      simp only [ne_eq, not_forall, not_not] at hk
      obtain ⟨m, result, hk⟩ := hk
      rw [hk]
      constructor
      · exact fun h => nomatch h
      · rintro ⟨-, m', rest, bodies, h, -⟩
        cases h
  refine ⟨fun k hk => ?_, hraises, fun k d hd he => ?_, fun h => ?_⟩
  · rw [(horder k hk).contour]
  · rcases exists_raises_of_mem_diagnostics hd with hd | ⟨j, hj, node, hnode, hcode⟩
    · cases hd
    · rw [he] at hnode
      obtain ⟨rfl, hends⟩ := (hraises j node).mp hnode
      exact ⟨hcode, j, hj, hends⟩
  · rcases run_or_isFault_of_compile h with hrun | hfault
    · rcases exists_raises_of_run hrun with ⟨k, node, hnode⟩ | ⟨m', hend⟩
      · exact ⟨k, ((hraises k node).mp hnode).2⟩
      · cases hend
    · cases hfault

end Photoplot
