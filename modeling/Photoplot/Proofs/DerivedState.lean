import Photoplot.Proofs.Scope
import Photoplot.Proofs.Steps
import Photoplot.Scalar.Double

/-!
# Derived State

A machine keeps two things that could be looked up in its graphics state: the route of draw
commands, which follows from the modes, and the flash target of the selected aperture, which follows
from its definition. They are derived when something changes that they follow from.

## Currency convention

A machine is **routed** if it keeps the route of its modes, and **fresh** if it keeps the flash
target of its selected aperture, or none if there is none. Every machine in a run is routed. It is
fresh unless a receiver has refused a new definition of the selected aperture: the definition stays,
but the flash target is not derived any more.

## Main definitions

* `Machine.Routed`, `Machine.Fresh`: what is kept is what would be derived.
* `Machine.Change`: everything that a step can do to what is kept and to what it follows from.
* `Receiver.direct`, `Machine.drawDirect`, `Machine.flashDirect`: without anything kept.

## Main results

* `change_step`: a step makes one of these changes, or the receiver refuses a definition.
* `draw_eq_drawDirect`: a draw command is sent where the modes say.
* `fresh_or_outdated`: a machine is fresh, or outdated since a refused definition.
-/

namespace Photoplot

variable {α σ β : Type}

/-! ### What is derived -/

namespace GraphicsState

/-- The route for the modes that are set. -/
def route (s : GraphicsState α) : Route := .ofModes s.plotMode s.quadrant s.inRegion

/-- The flash target of the selected aperture, if it is defined and has one. -/
def flashTarget (s : GraphicsState α) : Option (FlashTarget α) :=
  (s.current.bind FlashTarget.ofResolved).toOption

/-- A state is another one but for what an id stands for. -/
structure Redefines (id : ApertureId) (s s' : GraphicsState α) : Prop where
  route : s'.route = s.route
  selected : s'.selected = s.selected
  others : ∀ other ≠ id, s'.resolve other = s.resolve other

/-- A definition of another aperture does not change what the selected one stands for. -/
theorem Redefines.current {id : ApertureId} {s s' : GraphicsState α} (h : Redefines id s s')
    (hselected : s.selected ≠ some id) : s'.current = s.current := by
  rw [GraphicsState.current, GraphicsState.current, h.selected]
  cases hs : s.selected with
  | none => rfl
  | some other => exact h.others other fun heq => hselected (by rw [hs, heq])

/-- A block is defined under its id only. -/
theorem redefines_defineBlock (b : Block α) (s : GraphicsState α) :
    Redefines b.id s (s.defineBlock b) where
  route := rfl
  selected := rfl
  others other hother := by
    simp [resolve, defineBlock, Std.TreeMap.getElem?_insert, Std.TreeMap.getElem?_erase,
      hother.symm]

/-- An aperture is defined, or the state stays as it is. -/
theorem ensures_defineAperture_redefines (d : ApertureDefinition α) (s : GraphicsState α) :
    (defineAperture d).Ensures (· = s)
      (fun _ s' => Redefines d.id s s' ∧ s'.resolve d.id = .ok (.aperture d))
      fun _ s' => s' = s := by
  rintro s' rfl
  obtain ⟨-, hdefined⟩ | ⟨name, parameters, -, -, hfailed⟩ := defineAperture_cases d s'
  · rw [hdefined]
    refine ⟨⟨rfl, rfl, fun other hother => ?_⟩, ?_⟩
    · simp [resolve, withAperture, Std.TreeMap.getElem?_insert, Std.TreeMap.getElem?_erase,
        hother.symm]
    · simp [resolve, withAperture]
  · rw [hfailed]

end GraphicsState

namespace Machine

/-- The route that is kept is that of the modes. -/
def Routed (m : Machine α σ) : Prop := m.route = m.state.route

/-- The flash target that is kept is that of the selected aperture. -/
def Fresh (m : Machine α σ) : Prop := m.flashTarget = m.state.flashTarget

/-! ### What changes -/

/-- What is kept, and what it follows from, are the same in two machines. -/
structure Untouched (m m' : Machine α σ) : Prop where
  route : m'.route = m.route
  modes : m'.state.route = m.state.route
  flashTarget : m'.flashTarget = m.flashTarget
  current : m'.state.current = m.state.current

/-- What becomes of what is kept, and of what it follows from. -/
inductive Change (m m' : Machine α σ) : Prop
  | untouched (h : Untouched m m')
  | selected (fresh : m'.Fresh) (route : m'.route = m.route)
      (modes : m'.state.route = m.state.route)
  | rerouted (routed : m'.Routed) (flashTarget : m'.flashTarget = m.flashTarget)
      (current : m'.state.current = m.state.current)

/-- The receiver refuses the definition of the selected aperture, which has been accepted. -/
structure Refuses (r : Receiver α σ) (d : ApertureDefinition α) (m : Machine α σ) : Prop where
  selected : m.state.selected = some d.id
  accepted : (GraphicsState.defineAperture d m.state).result = .ok ()
  refused : ∃ e, (r.apertureDefined (GraphicsState.defineAperture d m.state).state d
    m.receiver).result = .error e

/-- What becomes of them when a definition of the selected aperture is refused. -/
structure Misses (d : ApertureDefinition α) (m m' : Machine α σ) : Prop where
  route : m'.route = m.route
  modes : m'.state.route = m.state.route
  flashTarget : m'.flashTarget = m.flashTarget
  current : m'.state.current = .ok (.aperture d)

section

variable {m m' m'' m₀ : Machine α σ}

/-- A machine is untouched when nothing happens. -/
theorem Untouched.refl (m : Machine α σ) : Untouched m m := ⟨rfl, rfl, rfl, rfl⟩

/-- A machine that is untouched twice is untouched. -/
theorem Untouched.trans (h : Untouched m m') (h' : Untouched m' m'') : Untouched m m'' where
  route := h'.route.trans h.route
  modes := h'.modes.trans h.modes
  flashTarget := h'.flashTarget.trans h.flashTarget
  current := h'.current.trans h.current

/-- A machine that is untouched keeps the right route. -/
theorem Untouched.routed (h : Untouched m m') (hm : m.Routed) : m'.Routed :=
  (h.route.trans hm).trans h.modes.symm

/-- A machine that is untouched keeps a flash target that is fresh. -/
theorem Untouched.fresh (h : Untouched m m') (hm : m.Fresh) : m'.Fresh := by
  rw [Fresh, GraphicsState.flashTarget, h.flashTarget, h.current]
  exact hm

/-- A change after which nothing is touched is the whole change. -/
theorem Change.trans_untouched (h : Change m m') (h' : Untouched m' m'') : Change m m'' := by
  cases h with
  | untouched h => exact .untouched (h.trans h')
  | selected fresh route modes =>
      exact .selected (h'.fresh fresh) (h'.route.trans route) (h'.modes.trans modes)
  | rerouted routed flashTarget current =>
      exact .rerouted (h'.routed routed) (h'.flashTarget.trans flashTarget)
        (h'.current.trans current)

/-- What was missed is still missed when nothing is touched afterwards. -/
theorem Misses.trans_untouched {d : ApertureDefinition α} (h : Misses d m m')
    (h' : Untouched m' m'') : Misses d m m'' where
  route := h'.route.trans h.route
  modes := h'.modes.trans h.modes
  flashTarget := h'.flashTarget.trans h.flashTarget
  current := h'.current.trans h.current

/-! ### Actions that change nothing -/

/-- A change that concerns neither the route nor the selected aperture touches nothing. -/
theorem keeps_untouched_modifyState {f : GraphicsState α → GraphicsState α}
    (hroute : ∀ s, (f s).route = s.route) (hcurrent : ∀ s, (f s).current = s.current) :
    Action.Keeps (Untouched m₀) (modifyState f) :=
  fun m h => h.trans ⟨rfl, hroute m.state, rfl, hcurrent m.state⟩

/-- An action that concerns neither the route nor the selected aperture touches nothing. -/
theorem keeps_untouched_onState {a : Action (GraphicsState α) β}
    (h : ∀ s₀ : GraphicsState α, a.Keeps fun s => s.route = s₀.route ∧ s.current = s₀.current) :
    Action.Keeps (Untouched m₀) (onState a) := by
  intro m hm
  obtain ⟨hroute, hcurrent⟩ := h m.state m.state ⟨rfl, rfl⟩
  exact hm.trans ⟨rfl, hroute, rfl, hcurrent⟩

/-- A callback touches nothing of the machine. -/
theorem untouched_tell (callback : GraphicsState α → Action σ Unit) (m : Machine α σ) :
    Untouched m (tell callback m).state := ⟨rfl, rfl, rfl, rfl⟩

/-- A callback leaves an untouched machine untouched. -/
theorem keeps_untouched_tell {callback : GraphicsState α → Action σ Unit} :
    Action.Keeps (Untouched m₀) (tell callback) := fun m h => h.trans (untouched_tell callback m)

/-- To skip a node touches nothing. -/
theorem untouched_skip (options : Options) (node : Node α) (e : Error) (m : Machine α σ) :
    Untouched m (skip options node e m).state := by
  rw [skip]
  split
  · exact .refl m
  · cases options.errorMode <;> exact ⟨rfl, rfl, rfl, rfl⟩

/-! ### Selections -/

/-- A selection derives the flash target. -/
theorem state_select (id : ApertureId) (m : Machine α σ) :
    let state := { m.state with selected := some id }
    (select id m).state = { m with state, flashTarget := state.flashTarget } := by
  intro state
  have hcurrent : state.current = state.resolve id := rfl
  rw [GraphicsState.flashTarget, hcurrent]
  cases hresolve : state.resolve id with
  | error e =>
      simp only [select, bind, Action.bind, Action.modify, Action.gets]
      rw [hresolve]
      rfl
  | ok resolved =>
      simp only [select, bind, Action.bind, Action.modify, Action.gets, Except.bind]
      rw [hresolve]
      dsimp only
      cases FlashTarget.ofResolved resolved <;> rfl

/-- To select an aperture brings a new flash target, or touches nothing when it fails. -/
theorem change_select (id : ApertureId) (m : Machine α σ) :
    Change m (select id m).state := by
  rw [state_select]
  exact .selected rfl rfl rfl

/-- **A redefinition** is followed by a selection if it is that of the selected aperture. -/
theorem change_reselect {id : ApertureId} (hredefines : m.state.Redefines id m'.state)
    (hroute : m'.route = m.route) (hflashTarget : m'.flashTarget = m.flashTarget) :
    Change m (reselect id m').state := by
  rw [reselect, Action.gets_bind]
  by_cases hselected : m'.state.selected = some id
  · rw [if_pos hselected, state_select]
    exact .selected rfl hroute hredefines.route
  · rw [if_neg hselected]
    rw [hredefines.selected] at hselected
    exact .untouched ⟨hroute, hredefines.route, hflashTarget, hredefines.current hselected⟩

end

/-! ### Commands -/

/-- **A definition** is one of the changes, unless it is one of the selected aperture that the
receiver refuses. -/
theorem change_defineAperture (r : Receiver α σ) (d : ApertureDefinition α) (m : Machine α σ) :
    Change m (defineAperture r d m).state ∨
      m.Refuses r d ∧ Misses d m (defineAperture r d m).state := by
  have hdefine := GraphicsState.ensures_defineAperture_redefines d m.state m.state rfl
  rw [defineAperture]
  cases haccepted : (GraphicsState.defineAperture d m.state).result with
  | error e =>
      rw [haccepted] at hdefine
      rw [(Action.bind_eq_of_error (a := onState (GraphicsState.defineAperture d)) haccepted).2]
      refine .inl (.untouched ⟨rfl, ?_, rfl, ?_⟩)
      · exact congrArg GraphicsState.route hdefine
      · exact congrArg GraphicsState.current hdefine
  | ok _ =>
      rw [haccepted] at hdefine
      obtain ⟨hredefines, hresolve⟩ := hdefine
      rw [(Action.bind_eq_of_ok (a := onState (GraphicsState.defineAperture d)) haccepted).2]
      cases hagreed : (tell (r.apertureDefined · d)
          (onState (GraphicsState.defineAperture d) m).state).result with
      | ok _ =>
          rw [(Action.bind_eq_of_ok hagreed).2]
          exact .inl (change_reselect hredefines rfl rfl)
      | error e =>
          rw [(Action.bind_eq_of_error hagreed).2]
          -- The definition is in the state by now, and the selection is not made again.
          by_cases hselected : m.state.selected = some d.id
          · refine .inr ⟨⟨hselected, haccepted, e, hagreed⟩, rfl, hredefines.route, rfl, ?_⟩
            have hcurrent : (GraphicsState.defineAperture d m.state).state.current =
                .ok (.aperture d) := by
              rw [GraphicsState.current, hredefines.selected, hselected]
              exact hresolve
            exact hcurrent
          · exact .inl (.untouched ⟨rfl, hredefines.route, rfl, hredefines.current hselected⟩)

variable [Scalar α]

/-- To read coordinates touches nothing. -/
theorem keeps_untouched_load (m₀ : Machine α σ) (c : Coordinates) :
    Action.Keeps (Untouched m₀) (onState (GraphicsState.load c)) :=
  keeps_untouched_onState fun _ => GraphicsState.keeps_load (fun _ _ _ h => h) c

/-- **One command.** -/
theorem change_perform (r : Receiver α σ) (c : Command α) (m : Machine α σ) :
    Change m (perform r c m).state ∨
      ∃ d, c = .defineAperture d ∧ m.Refuses r d ∧ Misses d m (perform r c m).state := by
  have hcommit : Action.Keeps (Untouched m) (modifyState GraphicsState.commit) :=
    keeps_untouched_modifyState (fun _ => rfl) fun _ => rfl
  have hload := keeps_untouched_load m
  cases c with
  | defineAperture d =>
      rcases change_defineAperture r d m with h | ⟨hrefuses, hmisses⟩
      · exact .inl h
      · exact .inr ⟨d, rfl, hrefuses, hmisses⟩
  | format f =>
      have hformat : Action.Keeps (Untouched m) (onState (GraphicsState.setFormat f)) :=
        keeps_untouched_onState fun _ => GraphicsState.keeps_setFormat fun _ h => h
      exact .inl (.untouched (hformat m (.refl m)))
  | selectAperture id => exact .inl (change_select id m)
  | draw c =>
      have hdraw : Action.Keeps (Untouched m) (draw r c) :=
        keeps_draw (hload c) (fun _ => keeps_untouched_tell) hcommit
      exact .inl (.untouched (hdraw m (.refl m)))
  | move c =>
      have hmove : Action.Keeps (Untouched m) (move r c) :=
        keeps_move (hload c) keeps_untouched_tell hcommit
      exact .inl (.untouched (hmove m (.refl m)))
  | flash c =>
      have hflash : Action.Keeps (Untouched m) (flash r c) :=
        keeps_flash (hload c) (fun _ _ => keeps_untouched_tell) hcommit
      exact .inl (.untouched (hflash m (.refl m)))
  | plotMode mode | quadrant q | beginRegion | endRegion => exact .inl (.rerouted rfl rfl rfl)
  | comment _ | stop | optionalStop | endOfFile => exact .inl (.untouched (.refl m))
  | unit u | legacyUnit u | defineMacro d | polarity p | mirroring d | rotation degrees
  | scale factor | «attribute» kind a | deleteAttribute name =>
      exact .inl (.untouched ⟨rfl, rfl, rfl, rfl⟩)

end Machine

/-! ### Steps -/

open Machine Moment

section Steps

variable [Scalar α] {r : Receiver α σ} {options : Options}

omit [Scalar α] in
/-- What comes after a node does not touch what is kept. -/
theorem untouched_settle (node : Node α) (rest : List (Node α)) (bodies : List (OpenBody α))
    (m : Machine α σ) : ∀ result, Untouched m (settle options node rest bodies m result).machine
  | .ok .continue | .ok .halt => .refl m
  | .error e => by
    rw [settle]
    split <;> exact untouched_skip options node e m

omit [Scalar α] in
/-- To begin a body touches nothing but by the definition of its block. -/
theorem change_begin (frame : Frame α) (body rest : List (Node α)) (bodies : List (OpenBody α))
    (m : Machine α σ) : Change m (begin r options frame body rest bodies m).machine := by
  have hentered : Change m (enter r body frame m).state := by
    cases frame with
    | block id =>
        let defined : Machine α σ := { m with state := m.state.defineBlock ⟨id, body⟩ }
        have hreselected : Change m (reselect id defined).state :=
          change_reselect (GraphicsState.redefines_defineBlock ⟨id, body⟩ m.state) rfl rfl
        have hbegun : (enter r body (.block id) m).state =
            ((reselect id >>= fun _ => tell (r.beginBlock · ⟨id, body⟩)) defined).state := rfl
        rw [hbegun]
        cases hresult : (reselect id defined).result with
        | error e =>
            rw [(Action.bind_eq_of_error hresult).2]
            exact hreselected
        | ok _ =>
            rw [(Action.bind_eq_of_ok hresult).2]
            exact hreselected.trans_untouched (untouched_tell _ _)
    | stepRepeat grid => exact .untouched (untouched_tell _ m)
  rw [Moment.begin]
  split
  · exact hentered
  · exact hentered.trans_untouched (untouched_settle _ _ _ _ _)

/-- **One step.** -/
theorem change_step (r : Receiver α σ) (options : Options) (x : Moment α σ) :
    Change x.machine (x.step r options).machine ∨
      ∃ m d rest bodies, x = .visiting m (.command (.defineAperture d) :: rest) bodies ∧
        m.Refuses r d ∧ Misses d m (x.step r options).machine := by
  cases x using Moment.cases_next with
  | nothing m bodies | finished m result => exact .inl (.untouched (.refl m))
  | command m c rest bodies =>
      have hsettle : Untouched (perform r c m).state
          (Moment.step r options (.visiting m (.command c :: rest) bodies)).machine :=
        untouched_settle _ _ _ _ _
      rcases change_perform r c m with hchange | ⟨d, rfl, hrefuses, hmisses⟩
      · exact .inl (hchange.trans_untouched hsettle)
      · exact .inr ⟨m, d, rest, bodies, rfl, hrefuses, hmisses.trans_untouched hsettle⟩
  | enclose m frame body rest bodies =>
      rw [step_enclose]
      exact .inl (change_begin frame body rest bodies m)
  | leave m flow b bodies =>
      have hleft : Untouched m (leave r b m).state := ⟨rfl, rfl, rfl, rfl⟩
      exact .inl (.untouched (hleft.trans (untouched_settle _ _ _ _ _)))
  | close m flow => exact .inl (.untouched (untouched_tell _ m))

/-! ### Draw commands -/

namespace Machine

/-- **A machine stays routed.** -/
theorem Routed.of_later {x y : Moment α σ} (hx : x.machine.Routed) (h : Later r options x y) :
    y.machine.Routed := by
  induction h with
  | refl => exact hx
  | @tail y z _ hnext ih =>
      cases hnext with
      | again => exact ih
      | step =>
          rcases change_step r options y with h | ⟨m, d, rest, bodies, rfl, -, hmisses⟩
          · cases h with
            | untouched h => exact h.routed ih
            | selected _ hroute hmodes => exact (hroute.trans ih).trans hmodes.symm
            | rerouted hrouted => exact hrouted
          · exact (hmisses.route.trans ih).trans hmisses.modes.symm

end Machine

/-- The callback for the pending segment that the modes call for. -/
def Receiver.direct (r : Receiver α σ) (s : GraphicsState α) : Action σ Unit :=
  match s.inRegion, s.plotMode with
  | false, .linear => r.drawLine s s.segment
  | false, .circular direction => r.drawArc s s.segment direction s.quadrant
  | true, .linear => r.regionLine s s.segment
  | true, .circular direction => r.regionArc s s.segment direction s.quadrant

/-- Draws to the target without a route. -/
def Machine.drawDirect (r : Receiver α σ) (c : Coordinates) : Action (Machine α σ) Unit := do
  onState (GraphicsState.load c)
  let s ← Action.gets (·.state)
  if s.inRegion then pure ()
  else
    let _ ← Action.ofExcept s.current
  tell r.direct
  modifyState GraphicsState.commit

/-- The table has the callback that the modes call for in its place. -/
theorem send_route (r : Receiver α σ) (s : GraphicsState α) :
    s.route.send r s s.segment = r.direct s := by
  rw [GraphicsState.route, Receiver.direct]
  cases s.inRegion <;> rcases s.plotMode with _ | (_ | _) <;> cases s.quadrant <;> rfl

namespace Machine

/-- A machine that is routed draws as without a route. -/
theorem Routed.draw_eq {m : Machine α σ} (hm : m.Routed) (r : Receiver α σ) (c : Coordinates) :
    draw r c m = drawDirect r c m := by
  have hloaded : (onState (GraphicsState.load c) m).state.Routed :=
    (keeps_untouched_load m c m (.refl m)).routed hm
  refine Action.bind_congr fun _ _ => ?_
  generalize (onState (GraphicsState.load c) m).state = m' at hloaded
  -- Both branches end with the same two actions, after the check for an aperture or without it.
  have hlast : (do
        let route ← Action.gets (fun m : Machine α σ => m.route)
        tell fun s => route.send r s s.segment
        modifyState GraphicsState.commit) m' =
      (do
        tell r.direct
        modifyState GraphicsState.commit) m' := by
    rw [Action.gets_bind, hloaded]
    refine Action.bind_congr_left ?_
    rw [tell, tell, send_route]
  rw [Action.gets_bind, Action.gets_bind]
  dsimp only
  split
  · exact hlast
  · exact Action.bind_congr fun _ _ => hlast

end Machine

/-- **Draw commands are sent where the modes say**, at all moments of a machine. -/
theorem draw_eq_drawDirect {c₀ : σ} {m : Machine α σ} {c : Coordinates} {rest : List (Node α)}
    {bodies : List (OpenBody α)}
    (h : Later r options (.finished (.initial c₀) (.ok ()))
      (.visiting m (.command (.draw c) :: rest) bodies)) :
    perform r (.draw c) m = drawDirect r c m :=
  Routed.draw_eq (Routed.of_later (x := .finished (.initial c₀) (.ok ())) rfl h) r c

/-- A receiver that notes where the last draw command was sent, and refuses regions. -/
def tracing : Receiver Float (Option Route) where
  drawLine _ _ := Action.modify fun _ => some .drawLine
  drawArc _ _ direction quadrant := Action.modify fun _ => some (.drawArc direction quadrant)
  beginRegion _ := Action.fail .contourNotOpen
  regionLine _ _ := Action.modify fun _ => some .regionLine
  regionArc _ _ direction quadrant := Action.modify fun _ => some (.regionArc direction quadrant)
  endRegion _ := Action.fail .contourNotOpen

/-- A region that is refused is a region all the same. -/
theorem draw_eq_drawDirect_refused :
    let options : Options := { errorMode := .ignore }
    let nowhere : Coordinates := ⟨none, none, none, none⟩
    ∃ m, Later tracing options (.finished (.initial none) (.ok ()))
        (.visiting m [.command (.draw nowhere)] []) ∧
      perform tracing (.draw nowhere) m = drawDirect tracing nowhere m ∧
      (perform tracing (.draw nowhere) m).state.receiver = some (.regionArc .clockwise .multi) := by
  intro options nowhere
  have hlater : Later tracing options (.finished (.initial none) (.ok ()))
      (.visiting _ [.command (.draw nowhere)] []) :=
    .head (.again (.initial none) (.ok ())
      [.command (.plotMode (.circular .clockwise)), .command .beginRegion,
        .command (.draw nowhere)])
      (later_iterate 2 _)
  exact ⟨_, hlater, draw_eq_drawDirect hlater, rfl⟩

/-! ### Flashes -/

/-- A machine is outdated since a definition of the selected aperture that was refused: it keeps the
flash target from before. -/
def OutdatedSince (r : Receiver α σ) (options : Options) (first x : Moment α σ) : Prop :=
  ∃ m d rest bodies,
    let there : Moment α σ := .visiting m (.command (.defineAperture d) :: rest) bodies
    Later r options first there ∧ m.Refuses r d ∧ Later r options (there.step r options) x ∧
      x.machine.state.current = .ok (.aperture d) ∧ x.machine.flashTarget = m.flashTarget

/-- Flashes the selected aperture, whose flash target is derived on the spot. -/
def Machine.flashDirect (r : Receiver α σ) (c : Coordinates) : Action (Machine α σ) Unit := do
  onState (GraphicsState.load c)
  let s ← Action.gets (·.state)
  if s.inRegion then Action.warn .flashInRegion
  else
    let resolved ← Action.ofExcept s.current
    match FlashTarget.ofResolved resolved with
    | .error _ => Action.fail (.apertureNotFound resolved.id)
    | .ok flashTarget =>
      tell fun s => r.flash s resolved.id flashTarget s.target
      modifyState GraphicsState.commit

/-- **A step** leaves a machine that is fresh or outdated. -/
theorem fresh_or_outdated_step {first x : Moment α σ} (hfirst : Later r options first x)
    (hx : x.machine.Fresh ∨ OutdatedSince r options first x) :
    (x.step r options).machine.Fresh ∨ OutdatedSince r options first (x.step r options) := by
  have hsame (hflashTarget : (x.step r options).machine.flashTarget = x.machine.flashTarget)
      (hcurrent : (x.step r options).machine.state.current = x.machine.state.current) :
      (x.step r options).machine.Fresh ∨ OutdatedSince r options first (x.step r options) := by
    rcases hx with hfresh | ⟨m, d, rest, bodies, hearlier, hrefuses, hlater, hd, hkept⟩
    · refine .inl ?_
      rw [Fresh, GraphicsState.flashTarget, hflashTarget, hcurrent]
      exact hfresh
    · exact .inr ⟨m, d, rest, bodies, hearlier, hrefuses, hlater.tail (.step x),
        hcurrent.trans hd, hflashTarget.trans hkept⟩
  -- A selection is the only change that makes a machine fresh; only a refusal makes it outdated.
  rcases change_step r options x with h | ⟨m, d, rest, bodies, rfl, hrefuses, hmisses⟩
  · cases h with
    | untouched h => exact hsame h.flashTarget h.current
    | selected hfresh => exact .inl hfresh
    | rerouted _ hflashTarget hcurrent => exact hsame hflashTarget hcurrent
  · exact .inr ⟨m, d, rest, bodies, hfirst, hrefuses, .refl, hmisses.current, hmisses.flashTarget⟩

/-- A machine that is fresh flashes as without a flash target. -/
theorem Machine.Fresh.flash_eq {m : Machine α σ} (hm : m.Fresh) (r : Receiver α σ)
    (c : Coordinates) : flash r c m = flashDirect r c m := by
  have hloaded : (onState (GraphicsState.load c) m).state.Fresh :=
    (keeps_untouched_load m c m (.refl m)).fresh hm
  refine Action.bind_congr fun _ _ => ?_
  generalize (onState (GraphicsState.load c) m).state = m' at hloaded
  rw [Action.gets_bind, Action.gets_bind]
  split
  · rfl
  refine Action.bind_congr fun resolved hcurrent => ?_
  have hfound : m'.state.current = .ok resolved := hcurrent
  have hkept : m'.flashTarget = (FlashTarget.ofResolved resolved).toOption := by
    rw [hloaded, GraphicsState.flashTarget, hfound]
    rfl
  show (Action.gets (·.flashTarget) >>= _) m' = _
  rw [Action.gets_bind, hkept]
  cases FlashTarget.ofResolved resolved <;> rfl

/-- **The flash target** that a machine keeps is that of its selected aperture, unless the receiver
has refused a new definition of it. A fresh machine flashes as if the flash target were derived on
the spot. -/
theorem fresh_or_outdated {c₀ : σ} {x : Moment α σ}
    (h : Later r options (.finished (.initial c₀) (.ok ())) x) :
    (x.machine.Fresh ∨ OutdatedSince r options (.finished (.initial c₀) (.ok ())) x) ∧
    (x.machine.Fresh → ∀ c, perform r (.flash c) x.machine = flashDirect r c x.machine) := by
  refine ⟨?_, fun hfresh c => hfresh.flash_eq r c⟩
  induction h with
  | refl => exact .inl rfl
  | tail hearlier hnext ih =>
      cases hnext with
      | step => exact fresh_or_outdated_step hearlier ih
      | again m result nodes =>
          refine ih.imp_right ?_
          rintro ⟨m', d, rest, bodies, hbefore, hrefuses, hlater, hrest⟩
          exact ⟨m', d, rest, bodies, hbefore, hrefuses, hlater.tail (.again m result nodes), hrest⟩

end Steps

/-! ### A refused definition -/

/-- Every machine in a run is fresh. -/
def AlwaysFresh [Scalar α] (r : Receiver α σ) (options : Options) (nodes : List (Node α))
    (m : Machine α σ) : Prop :=
  ∀ k, (moment r options nodes m k).machine.Fresh

/-- A receiver that refuses all definitions. -/
def undefining : Receiver Float Unit where
  apertureDefined _ _ := Action.fail .contourNotOpen

/-- An aperture that is selected and then defined anew. -/
def definedAnew : List (Node Float) :=
  [.command (.defineAperture ⟨⟨"D10"⟩, .circle ⟨1, none⟩⟩), .command (.selectAperture ⟨"D10"⟩),
    .command (.defineAperture ⟨⟨"D10"⟩, .rectangle ⟨2, 3, none⟩⟩)]

/-- The circle stays the flash target when the aperture has become a rectangle. -/
theorem not_fresh_definedAnew :
    ¬ (moment undefining { errorMode := .ignore } definedAnew (.initial ()) 3).machine.Fresh := by
  intro h
  have hcircle : (moment undefining { errorMode := .ignore } definedAnew (.initial ())
      3).machine.flashTarget = some (.circle ⟨1, none⟩) := rfl
  have hrectangle : (moment undefining { errorMode := .ignore } definedAnew (.initial ())
      3).machine.state.flashTarget = some (.rectangle ⟨2, 3, none⟩) := rfl
  cases hcircle.symm.trans (Eq.trans h hrectangle)

/-- With a receiver that refuses definitions a run is not always fresh. -/
theorem not_alwaysFresh :
    ¬ AlwaysFresh undefining { errorMode := .ignore } definedAnew (.initial ()) :=
  fun h => not_fresh_definedAnew (h 3)

/-- That run ends outdated since a definition that was refused. -/
theorem outdatedSince_definedAnew :
    OutdatedSince undefining { errorMode := .ignore } (.finished (.initial ()) (.ok ()))
      (moment undefining { errorMode := .ignore } definedAnew (.initial ()) 3) := by
  have hlater : Later undefining { errorMode := .ignore } (.finished (.initial ()) (.ok ()))
      (moment undefining { errorMode := .ignore } definedAnew (.initial ()) 3) :=
    .head (.again (.initial ()) (.ok ()) definedAnew) (later_iterate 3 _)
  exact (fresh_or_outdated hlater).1.resolve_left not_fresh_definedAnew

end Photoplot
