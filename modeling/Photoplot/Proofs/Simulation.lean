import Photoplot.Machine
import Photoplot.Proofs.Scope

/-!
# One Program for Two Receivers

A program that is run for two receivers does the same in both runs, except where it hears from a
receiver. So when the callbacks of one receiver refine those of another, the whole run for the
one refines the run for the other.

## Index convention

What relates the receivers depends on where the run stands. It is given for the **open bodies**,
the innermost one first, where a block is named by its id and a step-and-repeat has no name, and
for the **fresh** ids, those that the rest of the program may define. A relation that holds for
some fresh ids holds for fewer of them.

## Main definitions

* `Receiver.Refines`: the callbacks of one receiver refine those of another.
* `Receiver.Keeps`: the callbacks of a receiver keep a property.
* `Machine.Alike`: two machines that differ only in their receivers.

## Main results

* `Machine.refines_run`: the run for one receiver refines the run for another, by induction on
  the nodes of the program.
* `Machine.keeps_run`: a run keeps what the callbacks keep.
-/

namespace Photoplot

variable {α σ τ β : Type}

/-! ### Receivers -/

/-- What relates two receivers, for the open bodies and the fresh ids. -/
abbrev ReceiverRelation (σ τ : Type) :=
  List (Option ApertureId) → List ApertureId → σ → τ → Prop

/-- The callbacks of a receiver refine those of another. At the end of a body no error may be
doomed, because an error of the body wins over it. -/
structure Receiver.Refines (doomed : Error → Prop) (scope : Scope α) (R : ReceiverRelation σ τ)
    (r : Receiver α σ) (r' : Receiver α τ) : Prop where
  fewer {bodies : List (Option ApertureId)} {fresh fresh' : List ApertureId} {c : σ} {c' : τ} :
    fresh'.Sublist fresh → R bodies fresh c c' → R bodies fresh' c c'
  apertureDefined (s : GraphicsState α) (d : ApertureDefinition α)
    (bodies : List (Option ApertureId)) (fresh : List ApertureId) :
    s.Within scope → scope.ids d.id →
      Action.Refines doomed (R bodies (d.id :: fresh)) (r.apertureDefined s d)
        (r'.apertureDefined s d) (fun _ => R bodies fresh) (R bodies fresh)
  beginBlock (s : GraphicsState α) (b : Block α) (bodies : List (Option ApertureId))
    (fresh : List ApertureId) : s.Within scope → scope.ids b.id →
      Action.Refines doomed (R bodies (b.id :: fresh)) (r.beginBlock s b) (r'.beginBlock s b)
        (fun _ => R (some b.id :: bodies) fresh) (R bodies fresh)
  endBlock (s : GraphicsState α) (b : Block α) (bodies : List (Option ApertureId))
    (fresh : List ApertureId) : s.Within scope → scope.ids b.id →
      Action.Refines (fun _ => False) (R (some b.id :: bodies) fresh) (r.endBlock s b)
        (r'.endBlock s b) (fun _ => R bodies fresh) (R bodies fresh)
  beginStepRepeat (s : GraphicsState α) (b : StepRepeat α) (bodies : List (Option ApertureId))
    (fresh : List ApertureId) : s.Within scope →
      Action.Refines doomed (R bodies fresh) (r.beginStepRepeat s b) (r'.beginStepRepeat s b)
        (fun _ => R (none :: bodies) fresh) (R bodies fresh)
  endStepRepeat (s : GraphicsState α) (b : StepRepeat α) (bodies : List (Option ApertureId))
    (fresh : List ApertureId) : s.Within scope →
      Action.Refines (fun _ => False) (R (none :: bodies) fresh) (r.endStepRepeat s b)
        (r'.endStepRepeat s b) (fun _ => R bodies fresh) (R bodies fresh)
  flash (s : GraphicsState α) (id : ApertureId) (target : FlashTarget α) (center : Point α)
    (bodies : List (Option ApertureId)) (fresh : List ApertureId) :
    s.Within scope → scope.ids id →
      Action.Refines doomed (R bodies fresh) (r.flash s id target center)
        (r'.flash s id target center) (fun _ => R bodies fresh) (R bodies fresh)
  send (s : GraphicsState α) (segment : Segment α) (route : Route)
    (bodies : List (Option ApertureId)) (fresh : List ApertureId) : s.Within scope →
      Action.Refines doomed (R bodies fresh) (route.send r s segment) (route.send r' s segment)
        (fun _ => R bodies fresh) (R bodies fresh)
  beginRegion (s : GraphicsState α) (bodies : List (Option ApertureId))
    (fresh : List ApertureId) : s.Within scope →
      Action.Refines doomed (R bodies fresh) (r.beginRegion s) (r'.beginRegion s)
        (fun _ => R bodies fresh) (R bodies fresh)
  flushRegion (s : GraphicsState α) (bodies : List (Option ApertureId))
    (fresh : List ApertureId) : s.Within scope →
      Action.Refines doomed (R bodies fresh) (r.flushRegion s) (r'.flushRegion s)
        (fun _ => R bodies fresh) (R bodies fresh)
  endRegion (s : GraphicsState α) (bodies : List (Option ApertureId))
    (fresh : List ApertureId) : s.Within scope →
      Action.Refines doomed (R bodies fresh) (r.endRegion s) (r'.endRegion s)
        (fun _ => R bodies fresh) (R bodies fresh)
  endOfFile (s : GraphicsState α) (fresh : List ApertureId) : s.Within scope →
      Action.Refines (fun _ => False) (R [] fresh) (r.endOfFile s) (r'.endOfFile s)
        (fun _ => R [] fresh) (R [] fresh)

namespace Machine

variable {doomed : Error → Prop} {scope : Scope α} {R R' : σ → τ → Prop}

/-! ### Machines that differ in their receivers -/

/-- Two machines that differ only in their receivers, which are related. -/
structure Alike (scope : Scope α) (R : σ → τ → Prop) (m : Machine α σ) (m' : Machine α τ) :
    Prop where
  state : m.state = m'.state
  flashTarget : m.flashTarget = m'.flashTarget
  route : m.route = m'.route
  diagnostics : m.diagnostics = m'.diagnostics
  within : m.state.Within scope
  receiver : R m.receiver m'.receiver

/-- Two actions on machines that keep them alike. -/
abbrev Simulates (doomed : Error → Prop) (scope : Scope α) (R : σ → τ → Prop)
    (a : Action (Machine α σ) β) (b : Action (Machine α τ) β) : Prop :=
  Action.Refines doomed (Alike scope R) a b (fun _ => Alike scope R) (Alike scope R)

/-- Machines stay alike when less is asked of their receivers. -/
theorem Alike.weaken {m : Machine α σ} {m' : Machine α τ} (h : Alike scope R m m')
    (himp : ∀ s t, R s t → R' s t) : Alike scope R' m m' :=
  { h with receiver := himp _ _ h.receiver }

/-- The same change of the graphics state leaves machines alike. -/
theorem refines_modifyState {f : GraphicsState α → GraphicsState α}
    {E : Machine α σ → Machine α τ → Prop}
    (hf : ∀ s : GraphicsState α, s.Within scope → (f s).Within scope) :
    Action.Refines doomed (Alike scope R) (modifyState f) (modifyState f)
      (fun _ => Alike scope R) E := by
  refine Action.Refines.modify fun m m' h => ?_
  exact ⟨congrArg f h.state, h.flashTarget, h.route, h.diagnostics, hf _ h.within, h.receiver⟩

/-- The same action on the graphics state leaves machines alike. -/
theorem simulates_onState {a : Action (GraphicsState α) β}
    (ha : a.Keeps (GraphicsState.Within scope)) :
    Simulates doomed scope R (onState a) (onState a) := by
  refine .of_steps fun m m' h => ?_
  have hkept := ha _ h.within
  have hstep : a m.state = a m'.state := congrArg a h.state
  refine ⟨congrArg Step.result hstep, ?_⟩
  cases (onState a m).result <;>
    exact ⟨congrArg Step.state hstep, h.flashTarget, h.route, h.diagnostics, hkept, h.receiver⟩

/-- Machines whose receivers hear refining callbacks stay alike. -/
theorem refines_tell {a : GraphicsState α → Action σ Unit} {b : GraphicsState α → Action τ Unit}
    {Q E : σ → τ → Prop}
    (h : ∀ s : GraphicsState α, s.Within scope →
      Action.Refines doomed R (a s) (b s) (fun _ => Q) E) :
    Action.Refines doomed (Alike scope R) (tell a) (tell b) (fun _ => Alike scope Q)
      (Alike scope E) := by
  rintro ⟨state, receiver, flashTarget, route, diagnostics⟩ ⟨_, receiver', _, _, _⟩
    ⟨rfl, rfl, rfl, rfl, hwithin, hR⟩
  refine (h state hwithin receiver receiver' hR).imp id ?_
  rintro ⟨hresult, hstep⟩
  refine ⟨hresult, ?_⟩
  simp only [tell]
  cases hr : (a state receiver).result with
  | error e =>
      rw [hr] at hstep
      exact ⟨rfl, rfl, rfl, rfl, hwithin, hstep⟩
  | ok _ =>
      rw [hr] at hstep
      exact ⟨rfl, rfl, rfl, rfl, hwithin, hstep⟩

/-- Choosing the route of draw commands leaves machines alike. -/
theorem simulates_reroute :
    Simulates doomed scope R (reroute : Action (Machine α σ) Unit) reroute := by
  refine Action.Refines.modify fun m m' h => ?_
  exact ⟨h.state, h.flashTarget, by rw [h.state], h.diagnostics, h.within, h.receiver⟩

/-- Both machines give the same graphics state. -/
theorem refines_gets_state :
    Action.Refines doomed (Alike scope R)
      (Action.gets (fun m : Machine α σ => m.state)) (Action.gets (fun m => m.state))
      (fun s m m' => s.Within scope ∧ Alike scope R m m') (Alike scope R) :=
  .gets fun _ _ h => ⟨h.state, h.within, h⟩

/-- Selecting an aperture leaves machines alike. -/
theorem simulates_select (id : ApertureId) :
    Simulates doomed scope R (select id : Action (Machine α σ) Unit) (select id) := by
  refine Action.Refines.bind (M := fun _ => Alike scope R) (.modify fun m m' h => ?_) fun _ => ?_
  · exact ⟨by simp only [h.state], rfl, h.route, h.diagnostics,
      ⟨h.within.rotation, h.within.scale, h.within.apertures, h.within.blocks⟩, h.receiver⟩
  refine Action.Refines.bind (M := fun _ => Alike scope R)
    (.gets fun m m' h => ⟨by rw [h.state], h⟩) fun resolved => ?_
  split
  · refine Action.Refines.bind (M := fun _ => Alike scope R)
      (.ofExcept (fun _ _ _ _ h => h) fun _ _ h => h) fun target => ?_
    exact .modify fun m m' h => ⟨h.state, rfl, h.route, h.diagnostics, h.within, h.receiver⟩
  · exact .pure fun _ _ h => h

/-- Selecting an aperture again after its definition leaves machines alike. -/
theorem simulates_reselect (id : ApertureId) :
    Simulates doomed scope R (reselect id : Action (Machine α σ) Unit) (reselect id) := by
  refine Action.Refines.bind (M := fun _ => Alike scope R)
    (.gets fun m m' h => ⟨by rw [h.state], h⟩) fun selected => ?_
  split
  · exact simulates_select id
  · exact .pure fun _ _ h => h

/-! ### Commands -/

section Commands

variable {R : ReceiverRelation σ τ} {r : Receiver α σ} {r' : Receiver α τ}
  {bodies : List (Option ApertureId)} {fresh : List ApertureId}

/-- A definition leaves machines alike, and its id is fresh no more. -/
theorem refines_defineAperture (hr : r.Refines doomed scope R r') {d : ApertureDefinition α}
    (hid : scope.ids d.id) :
    Action.Refines doomed (Alike scope (R bodies (d.id :: fresh))) (defineAperture r d)
      (defineAperture r' d) (fun _ => Alike scope (R bodies fresh))
      (Alike scope (R bodies fresh)) := by
  have hfewer : ∀ c c', R bodies (d.id :: fresh) c c' → R bodies fresh c c' :=
    fun _ _ => hr.fewer (List.sublist_cons_self _ _)
  refine Action.Refines.bind
    ((simulates_onState (GraphicsState.within_defineAperture hid)).weaken (fun _ _ _ h => h)
      fun _ _ h => h.weaken hfewer) fun _ => ?_
  refine Action.Refines.bind
    (refines_tell fun s hs => hr.apertureDefined s d bodies fresh hs hid) fun _ => ?_
  exact simulates_reselect d.id

/-- The beginning of a region leaves machines alike. -/
theorem simulates_beginRegion (hr : r.Refines doomed scope R r') :
    Simulates doomed scope (R bodies fresh) (beginRegion r) (beginRegion r') := by
  refine Action.Refines.bind (refines_modifyState
    fun s h => ⟨h.rotation, h.scale, h.apertures, h.blocks⟩) fun _ => ?_
  refine Action.Refines.bind simulates_reroute fun _ => ?_
  exact refines_tell fun s hs => hr.beginRegion s bodies fresh hs

/-- The end of a region leaves machines alike. -/
theorem simulates_endRegion (hr : r.Refines doomed scope R r') :
    Simulates doomed scope (R bodies fresh) (endRegion r) (endRegion r') := by
  have hleave (result : Except Error Unit) : Simulates doomed scope (R bodies fresh)
      (do
        modifyState (σ := σ) fun s => { s with inRegion := false }
        reroute
        Action.ofExcept result)
      (do
        modifyState (σ := τ) fun s => { s with inRegion := false }
        reroute
        Action.ofExcept result) := by
    refine Action.Refines.bind (refines_modifyState
      fun s h => ⟨h.rotation, h.scale, h.apertures, h.blocks⟩) fun _ => ?_
    refine Action.Refines.bind simulates_reroute fun _ => ?_
    exact .ofExcept (fun _ _ _ _ h => h) fun _ _ h => h
  refine Action.Refines.attempt_bind
    (refines_tell fun s hs => hr.endRegion s bodies fresh hs) (fun _ => hleave _)
    (fun _ => hleave _) fun e he => ?_
  refine Action.Fails.bind (fun m => ⟨(), rfl⟩) fun _ => ?_
  refine Action.Fails.bind (fun m => ⟨(), rfl⟩) fun _ => ?_
  exact fun m => ⟨e, rfl, he⟩

variable [Scalar α]

/-- Arriving at the pending position stays within the scope. -/
theorem within_commit {s : GraphicsState α} (h : s.Within scope) : s.commit.Within scope :=
  ⟨h.rotation, h.scale, h.apertures, h.blocks⟩

/-- A draw command leaves machines alike. -/
theorem simulates_draw (hr : r.Refines doomed scope R r') (c : Coordinates) :
    Simulates doomed scope (R bodies fresh) (draw r c) (draw r' c) := by
  have hsend : Simulates doomed scope (R bodies fresh)
      (do
        let route ← Action.gets (fun m : Machine α σ => m.route)
        tell fun s => route.send r s s.segment
        modifyState GraphicsState.commit)
      (do
        let route ← Action.gets (fun m : Machine α τ => m.route)
        tell fun s => route.send r' s s.segment
        modifyState GraphicsState.commit) := by
    refine Action.Refines.bind (M := fun _ => Alike scope (R bodies fresh))
      (.gets fun m m' h => ⟨h.route, h⟩) fun route => ?_
    refine Action.Refines.bind
      (refines_tell fun s hs => hr.send s s.segment route bodies fresh hs) fun _ => ?_
    exact refines_modifyState fun s => within_commit
  refine Action.Refines.bind (simulates_onState (GraphicsState.within_load c)) fun _ => ?_
  refine Action.Refines.bind refines_gets_state fun s => ?_
  dsimp only
  split
  · exact hsend.strengthen fun _ _ h => h.2
  · refine Action.Refines.bind (M := fun _ => Alike scope (R bodies fresh))
      (.ofExcept (fun _ _ _ _ h => h.2) fun _ _ h => h.2) fun _ => hsend

/-- A move leaves machines alike. -/
theorem simulates_move (hr : r.Refines doomed scope R r') (c : Coordinates) :
    Simulates doomed scope (R bodies fresh) (move r c) (move r' c) := by
  have hcommit : Simulates doomed scope (R bodies fresh)
      (modifyState GraphicsState.commit : Action (Machine α σ) Unit)
      (modifyState GraphicsState.commit) := refines_modifyState fun s => within_commit
  refine Action.Refines.bind (simulates_onState (GraphicsState.within_load c)) fun _ => ?_
  refine Action.Refines.bind (M := fun _ => Alike scope (R bodies fresh))
    (.gets fun m m' h => ⟨by rw [h.state], h⟩) fun inRegion => ?_
  dsimp only
  split
  · exact Action.Refines.bind (refines_tell fun s hs => hr.flushRegion s bodies fresh hs)
      fun _ => hcommit
  · exact hcommit

/-- A flash leaves machines alike. -/
theorem simulates_flash (hr : r.Refines doomed scope R r') (c : Coordinates) :
    Simulates doomed scope (R bodies fresh) (flash r c) (flash r' c) := by
  refine Action.Refines.bind (simulates_onState (GraphicsState.within_load c)) fun _ => ?_
  refine Action.Refines.bind refines_gets_state fun s => ?_
  split
  · exact .warn fun _ _ h => h.2
  refine Action.Refines.bind
    (M := fun resolved m m' => scope.ids resolved.id ∧ Alike scope (R bodies fresh) m m')
    (.ofExcept (fun _ _ _ hcurrent h => ⟨h.1.current hcurrent, h.2⟩) fun _ _ h => h.2)
    fun resolved => ?_
  refine Action.Refines.of_and fun hid => ?_
  refine Action.Refines.bind (M := fun _ => Alike scope (R bodies fresh))
    (.gets fun m m' h => ⟨h.flashTarget, h⟩) fun target => ?_
  split
  · exact .fail fun _ _ h => h
  · refine Action.Refines.bind
      (refines_tell fun s hs => hr.flash s resolved.id _ s.target bodies fresh hs hid) fun _ => ?_
    exact refines_modifyState fun s => within_commit

/-- **One command.** The id of a definition is fresh before it and not after it. -/
theorem refines_perform (hr : r.Refines doomed scope R r') {c : Command α}
    (hadmits : scope.Admits [.command c]) :
    Action.Refines doomed (Alike scope (R bodies ((Node.command c).definitions ++ fresh)))
      (perform r c) (perform r' c) (fun _ => Alike scope (R bodies fresh))
      (Alike scope (R bodies fresh)) := by
  cases c with
  | format f => exact simulates_onState (GraphicsState.within_setFormat f)
  | unit u | legacyUnit u | defineMacro m | «attribute» kind a | deleteAttribute name =>
      exact refines_modifyState fun s h => ⟨h.rotation, h.scale, h.apertures, h.blocks⟩
  | defineAperture d =>
      have hid : scope.ids d.id :=
        hadmits.ids d.id (by simp [Node.definitionsOf, Node.definitions])
      exact refines_defineAperture hr hid
  | selectAperture id => exact simulates_select id
  | draw c => exact simulates_draw hr c
  | move c => exact simulates_move hr c
  | flash c => exact simulates_flash hr c
  | plotMode mode | quadrant q =>
      refine Action.Refines.bind (refines_modifyState
        fun s h => ⟨h.rotation, h.scale, h.apertures, h.blocks⟩) fun _ => ?_
      exact simulates_reroute
  | beginRegion => exact simulates_beginRegion hr
  | endRegion => exact simulates_endRegion hr
  | polarity p =>
      exact refines_modifyState fun s h => ⟨h.rotation, h.scale, h.apertures, h.blocks⟩
  | mirroring m =>
      exact refines_modifyState fun s h => ⟨h.rotation, h.scale, h.apertures, h.blocks⟩
  | rotation degrees =>
      have hx : scope.rotations degrees :=
        hadmits.rotations degrees (by simp [Node.commandsOf, Node.commands])
      exact refines_modifyState fun s h => ⟨hx, h.scale, h.apertures, h.blocks⟩
  | scale factor =>
      have hx : scope.scales factor :=
        hadmits.scales factor (by simp [Node.commandsOf, Node.commands])
      exact refines_modifyState fun s h => ⟨h.rotation, hx, h.apertures, h.blocks⟩
  | comment _ | stop | optionalStop | endOfFile => exact .pure fun _ _ h => h

end Commands

/-! ### Nodes -/

/-- Skipping a node leaves machines alike. -/
theorem simulates_skip {R : σ → τ → Prop} (options : Options) (node : Node α) (e : Error) :
    Simulates doomed scope R (skip options node e : Action (Machine α σ) Unit)
      (skip options node e) := by
  unfold skip
  split
  · exact .fail fun _ _ h => h
  split
  · exact .fail fun _ _ h => h
  · exact .pure fun _ _ h => h
  · refine Action.Refines.bind (M := fun _ => Alike scope R) (.warn fun _ _ h => h) fun _ => ?_
    exact .modify fun m m' h =>
      ⟨h.state, h.flashTarget, h.route, by rw [h.diagnostics], h.within, h.receiver⟩

/-- A fatal error that is doomed is not skipped. -/
theorem fails_skip (options : Options) (node : Node α) {e : Error} (hfatal : e.isFatal)
    (he : doomed e) : Action.Fails doomed (skip options node e : Action (Machine α σ) Unit) := by
  intro m
  rw [skip, if_pos hfatal]
  exact ⟨e, rfl, he⟩

/-- A body between its callbacks. The relation at the end of the body is one thing, and that
outside of it another. -/
theorem refines_enclosed {R S T : σ → τ → Prop} {body : Action (Machine α σ) Flow}
    {body' : Action (Machine α τ) Flow} {closing : GraphicsState α → Action σ Unit}
    {closing' : GraphicsState α → Action τ Unit}
    (hbody : Action.Refines doomed (Alike scope R) body body' (fun _ => Alike scope S)
      (Alike scope S))
    (hclosing : ∀ s : GraphicsState α, s.Within scope →
      Action.Refines (fun _ => False) S (closing s) (closing' s) (fun _ => T) T) :
    Action.Refines doomed (Alike scope R) (enclosed body closing) (enclosed body' closing')
      (fun _ => Alike scope T) (Alike scope T) := by
  refine Action.Refines.bind (M := fun _ => Alike scope R)
    (.gets fun m m' h => ⟨by rw [h.state], h⟩) fun position => ?_
  have hend (flow : Except Error Flow) :
      Action.Refines doomed (Alike scope S)
        (do
          modifyState (σ := σ) fun s => { s with position }
          let closed ← (tell closing).attempt
          let flow ← Action.ofExcept flow
          Action.ofExcept closed
          pure flow)
        (do
          modifyState (σ := τ) fun s => { s with position }
          let closed ← (tell closing').attempt
          let flow ← Action.ofExcept flow
          Action.ofExcept closed
          pure flow)
        (fun _ => Alike scope T) (Alike scope T) := by
    refine Action.Refines.bind (refines_modifyState
      fun s h => ⟨h.rotation, h.scale, h.apertures, h.blocks⟩) fun _ => ?_
    have hlast (closed : Except Error Unit) : Simulates (σ := σ) (τ := τ) doomed scope T
        (do
          let flow ← Action.ofExcept flow
          Action.ofExcept closed
          pure flow)
        (do
          let flow ← Action.ofExcept flow
          Action.ofExcept closed
          pure flow) := by
      refine Action.Refines.bind (M := fun _ => Alike scope T)
        (.ofExcept (fun _ _ _ _ h => h) fun _ _ h => h) fun flow => ?_
      refine Action.Refines.bind (M := fun _ => Alike scope T)
        (.ofExcept (fun _ _ _ _ h => h) fun _ _ h => h) fun _ => ?_
      exact .pure fun _ _ h => h
    exact Action.Refines.attempt_bind (refines_tell hclosing) (fun _ => hlast _)
      (fun _ => hlast _) fun _ => False.elim
  refine Action.Refines.attempt_bind hbody (fun _ => hend _) (fun _ => hend _) fun e he => ?_
  refine Action.Fails.bind (fun m => ⟨(), rfl⟩) fun _ => ?_
  refine Action.Fails.bind (fun m => ⟨_, rfl⟩) fun _ => ?_
  exact Action.Fails.bind_left fun m => ⟨e, rfl, he⟩

variable [Scalar α]

mutual

/-- **One node.** -/
theorem refines_visit {R : ReceiverRelation σ τ} {r : Receiver α σ} {r' : Receiver α τ}
    (hr : r.Refines doomed scope R r') (hfatal : ∀ e, doomed e → e.isFatal) (options : Options)
    (node : Node α) (hadmits : scope.Admits [node]) (bodies : List (Option ApertureId))
    (fresh : List ApertureId) :
    Action.Refines doomed (Alike scope (R bodies (node.definitions ++ fresh)))
      (visit r options node) (visit r' options node) (fun _ => Alike scope (R bodies fresh))
      (Alike scope (R bodies fresh)) := by
  match node with
  | .command c =>
      rw [visit, visit]
      refine Action.Refines.bind (refines_perform hr hadmits) fun _ => ?_
      exact .pure fun _ _ h => h
  | .block id body =>
      obtain ⟨hid, hbody⟩ := hadmits.block
      have hfewer (before : List ApertureId) :
          ∀ c c', R bodies (before ++ fresh) c c' → R bodies fresh c c' :=
        fun _ _ => hr.fewer (List.sublist_append_right _ _)
      rw [visit, visit]
      refine Action.Refines.bind
        (refines_modifyState fun s h => h.defineBlock (b := ⟨id, body⟩) hid) fun _ => ?_
      refine Action.Refines.bind ((simulates_reselect id).weaken (fun _ _ _ h => h)
        fun _ _ h => h.weaken (hfewer _)) fun _ => ?_
      have hbegin := refines_tell fun s hs =>
        hr.beginBlock s ⟨id, body⟩ bodies (Node.definitionsOf body ++ fresh) hs hid
      refine Action.Refines.bind
        (hbegin.weaken (fun _ _ _ h => h) fun _ _ h => h.weaken (hfewer _)) fun _ => ?_
      have hrun := refines_visitAll hr hfatal options body hbody (some id :: bodies) fresh
      have hdone := refines_enclosed hrun fun s hs => hr.endBlock s ⟨id, body⟩ bodies fresh hs hid
      exact hdone
  | .stepRepeat grid body =>
      have hbody := hadmits.stepRepeat
      have hfewer (before : List ApertureId) :
          ∀ c c', R bodies (before ++ fresh) c c' → R bodies fresh c c' :=
        fun _ _ => hr.fewer (List.sublist_append_right _ _)
      rw [visit, visit]
      have hbegin := refines_tell fun s hs =>
        hr.beginStepRepeat s ⟨grid, body⟩ bodies (Node.definitionsOf body ++ fresh) hs
      refine Action.Refines.bind
        (hbegin.weaken (fun _ _ _ h => h) fun _ _ h => h.weaken (hfewer _)) fun _ => ?_
      have hrun := refines_visitAll hr hfatal options body hbody (none :: bodies) fresh
      exact refines_enclosed hrun fun s hs => hr.endStepRepeat s ⟨grid, body⟩ bodies fresh hs

/-- **Nodes in order.** -/
theorem refines_visitAll {R : ReceiverRelation σ τ} {r : Receiver α σ} {r' : Receiver α τ}
    (hr : r.Refines doomed scope R r') (hfatal : ∀ e, doomed e → e.isFatal) (options : Options)
    (nodes : List (Node α)) (hadmits : scope.Admits nodes) (bodies : List (Option ApertureId))
    (fresh : List ApertureId) :
    Action.Refines doomed (Alike scope (R bodies (Node.definitionsOf nodes ++ fresh)))
      (visitAll r options nodes) (visitAll r' options nodes)
      (fun _ => Alike scope (R bodies fresh)) (Alike scope (R bodies fresh)) := by
  match nodes with
  | [] =>
      rw [visitAll, visitAll]
      exact .pure fun _ _ h => h
  | node :: rest =>
      have hrest := refines_visitAll hr hfatal options rest hadmits.tail bodies fresh
      have hnode := refines_visit hr hfatal options node hadmits.head bodies
        (Node.definitionsOf rest ++ fresh)
      rw [← List.append_assoc] at hnode
      rw [visitAll, visitAll]
      refine Action.Refines.attempt_bind hnode (fun flow => ?_) (fun e => ?_) fun e he => ?_
      · cases flow with
        | «continue» => exact hrest
        | halt =>
            exact .pure fun _ _ h =>
              h.weaken fun _ _ => hr.fewer (List.sublist_append_right _ _)
      · refine Action.Refines.bind (M := fun _ =>
          Alike scope (R bodies (Node.definitionsOf rest ++ fresh))) ?_ fun _ => hrest
        exact (simulates_skip options node e).weaken (fun _ _ _ h => h)
          fun _ _ h => h.weaken fun _ _ => hr.fewer (List.sublist_append_right _ _)
      · exact Action.Fails.bind_left (fails_skip options node (hfatal e he) he)

end

/-- **A whole run.** The ids that a program defines are fresh in the beginning. -/
theorem refines_run {R : ReceiverRelation σ τ} {r : Receiver α σ} {r' : Receiver α τ}
    (hr : r.Refines doomed scope R r') (hfatal : ∀ e, doomed e → e.isFatal) (options : Options)
    {nodes : List (Node α)} (hadmits : scope.Admits nodes) :
    Action.Refines doomed (Alike scope (R [] (Node.definitionsOf nodes))) (run r options nodes)
      (run r' options nodes) (fun _ => Alike scope (R [] [])) (Alike scope (R [] [])) := by
  have hlast (result : Except Error Flow) (closed : Except Error Unit) :
      Simulates (σ := σ) (τ := τ) doomed scope (R [] [])
        (do
          let _ ← Action.ofExcept result
          Action.ofExcept closed)
        (do
          let _ ← Action.ofExcept result
          Action.ofExcept closed) := by
    refine Action.Refines.bind (M := fun _ => Alike scope (R [] []))
      (.ofExcept (fun _ _ _ _ h => h) fun _ _ h => h) fun _ => ?_
    exact .ofExcept (fun _ _ _ _ h => h) fun _ _ h => h
  have hend (result : Except Error Flow) : Simulates doomed scope (R [] [])
      (do
        let closed ← (tell r.endOfFile).attempt
        let _ ← Action.ofExcept result
        Action.ofExcept closed)
      (do
        let closed ← (tell r'.endOfFile).attempt
        let _ ← Action.ofExcept result
        Action.ofExcept closed) :=
    Action.Refines.attempt_bind (refines_tell fun s hs => hr.endOfFile s [] hs)
      (fun _ => hlast _ _) (fun _ => hlast _ _) fun _ => False.elim
  have hall := refines_visitAll hr hfatal options nodes hadmits [] []
  rw [List.append_nil] at hall
  refine Action.Refines.attempt_bind hall (fun _ => hend _) (fun _ => hend _) fun e he => ?_
  refine Action.Fails.bind (fun m => ⟨_, rfl⟩) fun _ => ?_
  exact Action.Fails.bind_left fun m => ⟨e, rfl, he⟩

end Machine

/-! ### One receiver -/

/-- The callbacks of a receiver keep a property of its state. -/
structure Receiver.Keeps (P : σ → Prop) (r : Receiver α σ) : Prop where
  apertureDefined (s : GraphicsState α) (d : ApertureDefinition α) :
    Action.Keeps P (r.apertureDefined s d)
  beginBlock (s : GraphicsState α) (b : Block α) : Action.Keeps P (r.beginBlock s b)
  endBlock (s : GraphicsState α) (b : Block α) : Action.Keeps P (r.endBlock s b)
  beginStepRepeat (s : GraphicsState α) (b : StepRepeat α) :
    Action.Keeps P (r.beginStepRepeat s b)
  endStepRepeat (s : GraphicsState α) (b : StepRepeat α) : Action.Keeps P (r.endStepRepeat s b)
  flash (s : GraphicsState α) (id : ApertureId) (target : FlashTarget α) (center : Point α) :
    Action.Keeps P (r.flash s id target center)
  send (s : GraphicsState α) (segment : Segment α) (route : Route) :
    Action.Keeps P (route.send r s segment)
  beginRegion (s : GraphicsState α) : Action.Keeps P (r.beginRegion s)
  flushRegion (s : GraphicsState α) : Action.Keeps P (r.flushRegion s)
  endRegion (s : GraphicsState α) : Action.Keeps P (r.endRegion s)
  endOfFile (s : GraphicsState α) : Action.Keeps P (r.endOfFile s)

/-- A receiver that keeps a property refines itself over equal states with this property. -/
theorem Receiver.Keeps.refines {P : σ → Prop} {r : Receiver α σ} (h : r.Keeps P) :
    r.Refines (fun _ => False) Scope.all (fun _ _ c c' => c = c' ∧ P c) r where
  fewer _ hR := hR
  apertureDefined s d _ _ _ _ := (h.apertureDefined s d).refines
  beginBlock s b _ _ _ _ := (h.beginBlock s b).refines
  endBlock s b _ _ _ _ := (h.endBlock s b).refines
  beginStepRepeat s b _ _ _ := (h.beginStepRepeat s b).refines
  endStepRepeat s b _ _ _ := (h.endStepRepeat s b).refines
  flash s id target center _ _ _ _ := (h.flash s id target center).refines
  send s segment route _ _ _ := (h.send s segment route).refines
  beginRegion s _ _ _ := (h.beginRegion s).refines
  flushRegion s _ _ _ := (h.flushRegion s).refines
  endRegion s _ _ _ := (h.endRegion s).refines
  endOfFile s _ _ := (h.endOfFile s).refines

/-- What a refinement of an action on machines by itself says about the receiver. -/
theorem Machine.ensures_of_refines {P Q E : σ → Prop} {a : Action (Machine α σ) β}
    (h : Action.Refines (fun _ => False) (Alike Scope.all fun c c' => c = c' ∧ P c) a a
      (fun _ => Alike Scope.all fun c c' => c = c' ∧ Q c)
      (Alike Scope.all fun c c' => c = c' ∧ E c)) :
    a.Ensures (fun m => P m.receiver) (fun _ m => Q m.receiver) fun _ m => E m.receiver := by
  intro m hm
  have halike : Alike Scope.all (fun c c' => c = c' ∧ P c) m m :=
    ⟨rfl, rfl, rfl, rfl, ⟨trivial, trivial, fun _ _ _ => trivial, fun _ _ _ => trivial⟩, rfl, hm⟩
  rcases h m m halike with ⟨_, -, hdoomed⟩ | ⟨-, hstep⟩
  · exact hdoomed.elim
  · cases hresult : (a m).result <;> rw [hresult] at hstep <;> exact hstep.receiver.2

/-- The same when it makes no difference how the action ends. -/
theorem Machine.receiver_of_refines {P Q : σ → Prop} {a : Action (Machine α σ) β}
    (h : Action.Refines (fun _ => False) (Alike Scope.all fun c c' => c = c' ∧ P c) a a
      (fun _ => Alike Scope.all fun c c' => c = c' ∧ Q c)
      (Alike Scope.all fun c c' => c = c' ∧ Q c))
    {m : Machine α σ} (hm : P m.receiver) : Q (a m).state.receiver := by
  have hstep := ensures_of_refines h m hm
  cases hresult : (a m).result <;> rw [hresult] at hstep <;> exact hstep

/-- **One receiver.** A run keeps what the callbacks keep, however it ends. -/
theorem Machine.keeps_run [Scalar α] {P : σ → Prop} {r : Receiver α σ} (h : r.Keeps P)
    (options : Options) (nodes : List (Node α)) :
    Action.Keeps (fun m : Machine α σ => P m.receiver) (run r options nodes) := fun _ hm =>
  receiver_of_refines
    (refines_run h.refines (fun _ => False.elim) options (Scope.admits_all nodes)) hm

end Photoplot
