import Photoplot.Proofs.Bodies

/-!
# States That Cannot Be Told Apart

Some of what a command leaves in the graphics state is never looked at again: the coordinates of an
operation that was not carried out, the bodies of blocks, which are run where they stand, and, as
long as the coordinate format is not given anew, whether it is in use. Two states that differ in
nothing else agree, and machines in states that agree carry out the same commands alike.

## Blindness convention

Receivers see the whole graphics state. One that looks at no more than states agree on, and neither
at the bodies of nodes nor at flash targets, is blind (`Receiver.Blind`).

## Main definitions

* `GraphicsState.Agree`, `Machine.Agree`: states and machines that differ only in that.
* `Machine.EndsAlike`: two steps with the same result to machines that agree.
* `Receiver.Blind`: a receiver for which states that agree are all the same.

## Main results

* `Machine.inStep_perform`: every command but that of a format is carried out alike.
* `Machine.inStep_visitAll`: nodes in order, by induction on the nodes.
-/

namespace Photoplot

variable {α σ β : Type}

/-! ### Graphics states -/

/-- What an id stands for, without the body of a block. -/
def Resolved.outline : Resolved α → Resolved α
  | aperture d => aperture d
  | block b => block ⟨b.id, []⟩

/-- Only blocks can differ in their bodies. -/
theorem Resolved.eq_or_block_of_outline {resolved resolved' : Resolved α}
    (h : resolved.outline = resolved'.outline) :
    resolved = resolved' ∨
      ∃ b b', resolved = .block b ∧ resolved' = .block b' ∧ b.id = b'.id := by
  cases resolved with
  | aperture d =>
      cases resolved' with
      | aperture d' => exact .inl h
      | block b' => cases h
  | block b =>
      cases resolved' with
      | aperture d' => cases h
      | block b' => exact .inr ⟨b, b', rfl, rfl, congrArg Resolved.id h⟩

/-- The outline of a definition has its id. -/
theorem Resolved.id_eq_of_outline {resolved resolved' : Resolved α}
    (h : resolved.outline = resolved'.outline) : resolved.id = resolved'.id := by
  rcases eq_or_block_of_outline h with rfl | ⟨b, b', rfl, rfl, hid⟩
  · rfl
  · exact hid

namespace GraphicsState

/-- The state without the pending coordinates, the use of the format and the blocks. -/
def forget (s : GraphicsState α) : GraphicsState α :=
  { s with pending := {}, formatInUse := false, blocks := ∅ }

/-- Two states that differ only in what is never looked at again. -/
structure Agree (s s' : GraphicsState α) : Prop where
  same : s.forget = s'.forget
  blocks (id : ApertureId) : s.blocks[id]?.map Block.id = s'.blocks[id]?.map Block.id

/-- Two states that agree in the middle of an operation. -/
def Loaded (s s' : GraphicsState α) : Prop := s.Agree s' ∧ s.pending = s'.pending

/-- A state agrees with itself. -/
theorem Agree.refl (s : GraphicsState α) : s.Agree s := ⟨rfl, fun _ => rfl⟩

/-- States agree with each other. -/
theorem Agree.symm {s s' : GraphicsState α} (h : s.Agree s') : s'.Agree s :=
  ⟨h.same.symm, fun id => (h.blocks id).symm⟩

/-- A state that agrees with one of two states that agree agrees with both. -/
theorem Agree.trans {s s' s'' : GraphicsState α} (h : s.Agree s') (h' : s'.Agree s'') :
    s.Agree s'' :=
  ⟨h.same.trans h'.same, fun id => (h.blocks id).trans (h'.blocks id)⟩

/-- A change that is the same with or without what is forgotten. -/
theorem Agree.map {s s' : GraphicsState α} (h : s.Agree s')
    {f : GraphicsState α → GraphicsState α} (hforget : ∀ s, (f s).forget = f s.forget)
    (hblocks : ∀ s, (f s).blocks = s.blocks) : (f s).Agree (f s') where
  same := by rw [hforget, hforget, h.same]
  blocks id := by rw [hblocks, hblocks, h.blocks]

section

variable {s s' : GraphicsState α}

/-- States that agree read coordinates in the same format. -/
theorem Agree.format (h : s.Agree s') : s.format = s'.format := congrArg (·.format) h.same

/-- States that agree send draw commands the same way. -/
theorem Agree.modes (h : s.Agree s') :
    Route.ofModes s.plotMode s.quadrant s.inRegion =
      Route.ofModes s'.plotMode s'.quadrant s'.inRegion := by
  have hmode : s.plotMode = s'.plotMode := congrArg (·.plotMode) h.same
  have hquadrant : s.quadrant = s'.quadrant := congrArg (·.quadrant) h.same
  have hregion : s.inRegion = s'.inRegion := congrArg (·.inRegion) h.same
  rw [hmode, hquadrant, hregion]

/-- States that agree have the same current point. -/
theorem Agree.position (h : s.Agree s') : s.position = s'.position :=
  congrArg (·.position) h.same

/-- States that agree have the same aperture selected. -/
theorem Agree.selected (h : s.Agree s') : s.selected = s'.selected :=
  congrArg (·.selected) h.same

/-- States that agree have the same object transform. -/
theorem Agree.transform (h : s.Agree s') : s.transform = s'.transform :=
  congrArg (·.transform) h.same

/-- States that agree know the same macros. -/
theorem Agree.macros (h : s.Agree s') : s.macros = s'.macros := congrArg (·.macros) h.same

/-- Of two states that agree both are in a region or none is. -/
theorem Agree.inRegion (h : s.Agree s') : s.inRegion = s'.inRegion :=
  congrArg (·.inRegion) h.same

/-- An id stands for the same in both states, apart from the bodies of blocks. -/
theorem Agree.resolve (h : s.Agree s') (id : ApertureId) :
    (s.resolve id).map Resolved.outline = (s'.resolve id).map Resolved.outline := by
  have hapertures : s.apertures = s'.apertures := congrArg (·.apertures) h.same
  have hblocks := h.blocks id
  unfold GraphicsState.resolve
  rw [hapertures]
  split
  · rfl
  · cases hb : s.blocks[id]? with
    | none =>
        rw [hb, Option.map_none, eq_comm, Option.map_eq_none_iff] at hblocks
        rw [hblocks]
    | some b =>
        rw [hb, Option.map_some, eq_comm, Option.map_eq_some_iff] at hblocks
        obtain ⟨b', hb', hid⟩ := hblocks
        simp [hb', Except.map, Resolved.outline, hid]

/-- The selected aperture stands for the same in both states, apart from the body of a block. -/
theorem Agree.current (h : s.Agree s') :
    s.current.map Resolved.outline = s'.current.map Resolved.outline := by
  unfold GraphicsState.current
  rw [h.selected]
  split
  · rfl
  · exact h.resolve _

/-- A block may have another body. -/
theorem Agree.defineBlock (h : s.Agree s') (id : ApertureId) (body body' : List (Node α)) :
    (s.defineBlock ⟨id, body⟩).Agree (s'.defineBlock ⟨id, body'⟩) where
  same := congrArg (fun s => { s with
    apertures := s.apertures.erase id
    snapshots := s.snapshots.insert id s.attributes.aperture }) h.same
  blocks other := by
    simp only [GraphicsState.defineBlock, Std.TreeMap.getElem?_insert]
    split
    · rfl
    · exact h.blocks other

/-- States that agree still do after a move to one point. -/
theorem Agree.withPosition (h : s.Agree s') (position : Point α) :
    { s with position }.Agree { s' with position } :=
  ⟨congrArg (fun s => { s with position }) h.same, h.blocks⟩

variable [Scalar α]

/-- Both states lead to the same target. -/
theorem Loaded.segment (h : s.Loaded s') : s.segment = s'.segment := by
  have hincremental : s.isIncremental = s'.isIncremental := by
    unfold isIncremental
    rw [h.1.format]
  unfold GraphicsState.segment target arcOffset
  rw [hincremental, h.1.position, h.2]

/-- States that agree in the middle of an operation are on their way to the same point. -/
theorem Loaded.target (h : s.Loaded s') : s.target = s'.target := congrArg (·.stop) h.segment

/-- States that agree in the middle of an operation agree after it. -/
theorem Loaded.commit (h : s.Loaded s') : s.commit.Agree s'.commit where
  same := by
    show { s.forget with position := s.target } = { s'.forget with position := s'.target }
    rw [h.1.same, h.target]
  blocks := h.1.blocks

/-- Coordinates are read alike. -/
theorem refines_load (c : Coordinates) :
    Action.Refines (fun _ => False) Agree (load c : Action (GraphicsState α) Unit) (load c)
      (fun _ => Loaded) Agree := by
  refine Action.Refines.bind (M := fun _ => Loaded)
    (.modify fun s s' h => ⟨⟨h.same, h.blocks⟩, rfl⟩) fun _ => ?_
  split
  · exact .pure fun _ _ h => h
  refine Action.Refines.get_bind (M := fun s s' => s.format = s'.format)
    (fun _ _ h => h.1.format) fun s s' hformat => ?_
  rw [hformat]
  split
  · exact .fail fun _ _ h => h.1
  · refine Action.Refines.bind (M := fun _ => Loaded)
      (.ofExcept (fun _ _ _ _ h => h) fun _ _ h => h.1) fun pending => ?_
    exact .modify fun s s' h => ⟨⟨h.1.same, h.1.blocks⟩, rfl⟩

omit [Scalar α] in
/-- Apertures are defined alike. -/
theorem refines_defineAperture (d : ApertureDefinition α) :
    Action.Refines (fun _ => False) Agree (defineAperture d) (defineAperture d) (fun _ => Agree)
      Agree := by
  have hdefine : Action.Refines (fun _ => False) Agree
      (Action.modify fun s : GraphicsState α =>
        { s with
          blocks := s.blocks.erase d.id
          apertures := s.apertures.insert d.id d
          snapshots := s.snapshots.insert d.id s.attributes.aperture })
      (Action.modify fun s : GraphicsState α =>
        { s with
          blocks := s.blocks.erase d.id
          apertures := s.apertures.insert d.id d
          snapshots := s.snapshots.insert d.id s.attributes.aperture })
      (fun _ => Agree) Agree := by
    refine .modify fun s s' h => ⟨congrArg (fun s => { s with
      apertures := s.apertures.insert d.id d
      snapshots := s.snapshots.insert d.id s.attributes.aperture }) h.same, fun id => ?_⟩
    simp only [Std.TreeMap.getElem?_erase]
    split
    · rfl
    · exact h.blocks id
  refine Action.Refines.get_bind (M := fun s s' => s.macros = s'.macros)
    (fun _ _ h => h.macros) fun s s' hmacros => ?_
  dsimp only
  split
  · rw [hmacros]
    split
    · exact hdefine
    · exact Action.Refines.bind (M := fun _ => Agree) (.fail fun _ _ h => h) fun _ => hdefine
  · exact hdefine

end

end GraphicsState

namespace Machine

open GraphicsState

/-! ### Machines -/

/-- Two machines that are the same apart from their graphics states, which are related, and from
what would be flashed. -/
structure AgreeUpTo (R : GraphicsState α → GraphicsState α → Prop) (m m' : Machine α σ) :
    Prop where
  state : R m.state m'.state
  flashTarget : m.flashTarget.isSome = m'.flashTarget.isSome
  route : m.route = m'.route
  receiver : m.receiver = m'.receiver
  diagnostics : m.diagnostics = m'.diagnostics

/-- Two machines that agree. -/
abbrev Agree (m m' : Machine α σ) : Prop := AgreeUpTo GraphicsState.Agree m m'

/-- Machines that agree in the middle of an operation agree. -/
theorem AgreeUpTo.agree {m m' : Machine α σ} (h : AgreeUpTo Loaded m m') : m.Agree m' :=
  { h with state := h.state.1 }

/-- A machine agrees with itself. -/
theorem Agree.refl (m : Machine α σ) : m.Agree m := ⟨.refl _, rfl, rfl, rfl, rfl⟩

/-- Machines agree with each other. -/
theorem Agree.symm {m m' : Machine α σ} (h : m.Agree m') : m'.Agree m :=
  ⟨h.state.symm, h.flashTarget.symm, h.route.symm, h.receiver.symm, h.diagnostics.symm⟩

/-- A machine that agrees with one of two machines that agree agrees with both. -/
theorem Agree.trans {m m' m'' : Machine α σ} (h : m.Agree m') (h' : m'.Agree m'') :
    m.Agree m'' :=
  ⟨h.state.trans h'.state, h.flashTarget.trans h'.flashTarget, h.route.trans h'.route,
    h.receiver.trans h'.receiver, h.diagnostics.trans h'.diagnostics⟩

/-- Two actions that do the same from machines that agree, which agree again. -/
abbrev InStep (a b : Action (Machine α σ) β) : Prop :=
  Action.Refines (fun _ => False) Agree a b (fun _ => Agree) Agree

/-- Two steps with the same result to machines that agree. -/
structure EndsAlike (step step' : Step (Machine α σ) β) : Prop where
  result : step.result = step'.result
  state : step.state.Agree step'.state

/-- Actions in step end alike on machines that agree. -/
theorem InStep.endsAlike {a b : Action (Machine α σ) β} (h : InStep a b) {m m' : Machine α σ}
    (hm : m.Agree m') : EndsAlike (a m) (b m') := by
  rcases h m m' hm with ⟨_, -, hdoomed⟩ | ⟨hresult, hstep⟩
  · exact hdoomed.elim
  · refine ⟨hresult, ?_⟩
    cases hr : (a m).result <;> rw [hr] at hstep <;> exact hstep

/-- Actions that end alike on machines that agree are in step. -/
theorem inStep_of_endsAlike {a b : Action (Machine α σ) β}
    (h : ∀ m m', m.Agree m' → EndsAlike (a m) (b m')) : InStep a b := by
  refine .of_steps fun m m' hm => ⟨(h m m' hm).result, ?_⟩
  cases (a m).result <;> exact (h m m' hm).state

/-! ### Parts of commands -/

section Parts

variable {R T : GraphicsState α → GraphicsState α → Prop}

/-- A change of the graphics state takes machines from one relation to another as it takes the
states. -/
theorem agree_modifyState {f f' : GraphicsState α → GraphicsState α}
    {E : Machine α σ → Machine α σ → Prop} (h : ∀ s s', R s s' → T (f s) (f' s')) :
    Action.Refines (fun _ => False) (AgreeUpTo R) (modifyState f) (modifyState f')
      (fun _ => AgreeUpTo T) E :=
  .modify fun _ _ hm => { hm with state := h _ _ hm.state }

/-- An action on the graphics state that takes states that agree alike takes machines alike. -/
theorem agree_onState {a b : Action (GraphicsState α) β}
    (h : Action.Refines (fun _ => False) GraphicsState.Agree a b (fun _ => R)
      GraphicsState.Agree) :
    Action.Refines (fun _ => False) (Agree (σ := σ)) (onState a) (onState b)
      (fun _ => AgreeUpTo R) Agree := by
  refine .of_steps fun m m' hm => ?_
  rcases h _ _ hm.state with ⟨_, -, hdoomed⟩ | ⟨hresult, hstep⟩
  · exact hdoomed.elim
  refine ⟨hresult, ?_⟩
  have hsame : (onState (σ := σ) a m).result = (a m.state).result := rfl
  rw [hsame]
  cases hr : (a m.state).result <;> rw [hr] at hstep <;> exact { hm with state := hstep }

/-- A callback that makes no difference between related states makes none between the machines. -/
theorem agree_tell {callback callback' : GraphicsState α → Action σ Unit}
    (h : ∀ s s', R s s' → callback s = callback' s') :
    Action.Refines (fun _ => False) (AgreeUpTo R) (tell callback) (tell callback')
      (fun _ => AgreeUpTo R) (AgreeUpTo R) := by
  refine .of_steps fun m m' hm => ?_
  have hstep : callback m.state m.receiver = callback' m'.state m'.receiver := by
    rw [h _ _ hm.state, hm.receiver]
  refine ⟨show (callback _ _).result = _ from congrArg Step.result hstep, ?_⟩
  cases (tell callback m).result <;> exact { hm with receiver := congrArg Step.state hstep }

end Parts

/-- A change that is the same with or without what is forgotten is made alike. -/
theorem inStep_modifyState {f : GraphicsState α → GraphicsState α}
    (hforget : ∀ s, (f s).forget = f s.forget) (hblocks : ∀ s, (f s).blocks = s.blocks) :
    InStep (modifyState f : Action (Machine α σ) Unit) (modifyState f) :=
  agree_modifyState fun _ _ h => h.map hforget hblocks

/-- The route of draw commands is looked up alike. -/
theorem inStep_reroute : InStep (reroute : Action (Machine α σ) Unit) reroute :=
  .modify fun _ _ hm => { hm with route := hm.state.modes }

/-- The body of a block has no say in whether there is a flash target. -/
theorem map_ofResolved {resolved resolved' : Resolved α}
    (h : resolved.outline = resolved'.outline) :
    (FlashTarget.ofResolved resolved).map (fun _ => ()) =
      (FlashTarget.ofResolved resolved').map (fun _ => ()) := by
  rcases Resolved.eq_or_block_of_outline h with rfl | ⟨b, b', rfl, rfl, -⟩
  · rfl
  · rfl

/-- An aperture is selected alike. -/
theorem inStep_select (id : ApertureId) :
    InStep (select id : Action (Machine α σ) Unit) (select id) := by
  refine Action.Refines.bind (M := fun _ => Agree) (.modify fun m m' hm => ?_) fun _ => ?_
  · exact { hm with
      state := hm.state.map (f := fun s => { s with selected := some id }) (fun _ => rfl)
        fun _ => rfl
      flashTarget := rfl }
  refine Action.Refines.gets_bind
    (M := fun found found' => found.map Resolved.outline = found'.map Resolved.outline)
    (fun _ _ hm => hm.state.resolve id) fun found found' h => ?_
  rcases Action.exists_of_map_eq h with ⟨e, rfl, rfl⟩ | ⟨resolved, resolved', rfl, rfl, houtline⟩
  · exact .pure fun _ _ hm => hm
  · refine Action.Refines.ofExcept_bind (map_ofResolved houtline) (fun target target' _ => ?_)
      fun _ _ hm => hm
    exact .modify fun m m' hm => { hm with flashTarget := rfl }

/-- The selected aperture is looked up anew alike. -/
theorem inStep_reselect (id : ApertureId) :
    InStep (reselect id : Action (Machine α σ) Unit) (reselect id) := by
  refine Action.Refines.gets_bind (M := Eq) (fun _ _ hm => hm.state.selected)
    fun selected selected' h => ?_
  rw [h]
  split
  · exact inStep_select id
  · exact .pure fun _ _ hm => hm

end Machine

/-! ### Receivers -/

/-- The callbacks depend on nothing that states which agree may differ in, nor on the bodies of
nodes and on what would be flashed. -/
structure Receiver.Blind (r : Receiver α σ) : Prop where
  apertureDefined {s s' : GraphicsState α} (d : ApertureDefinition α) :
    s.Agree s' → r.apertureDefined s d = r.apertureDefined s' d
  beginBlock {s s' : GraphicsState α} (id : ApertureId) (body body' : List (Node α)) :
    s.Agree s' → r.beginBlock s ⟨id, body⟩ = r.beginBlock s' ⟨id, body'⟩
  endBlock {s s' : GraphicsState α} (id : ApertureId) (body body' : List (Node α)) :
    s.Agree s' → r.endBlock s ⟨id, body⟩ = r.endBlock s' ⟨id, body'⟩
  beginStepRepeat {s s' : GraphicsState α} (grid : Grid α) (body body' : List (Node α)) :
    s.Agree s' → r.beginStepRepeat s ⟨grid, body⟩ = r.beginStepRepeat s' ⟨grid, body'⟩
  endStepRepeat {s s' : GraphicsState α} (grid : Grid α) (body body' : List (Node α)) :
    s.Agree s' → r.endStepRepeat s ⟨grid, body⟩ = r.endStepRepeat s' ⟨grid, body'⟩
  flash {s s' : GraphicsState α} (id : ApertureId) (target target' : FlashTarget α)
    (center : Point α) : s.Agree s' → r.flash s id target center = r.flash s' id target' center
  send {s s' : GraphicsState α} (segment : Segment α) (route : Route) :
    s.Agree s' → route.send r s segment = route.send r s' segment
  beginRegion {s s' : GraphicsState α} : s.Agree s' → r.beginRegion s = r.beginRegion s'
  flushRegion {s s' : GraphicsState α} : s.Agree s' → r.flushRegion s = r.flushRegion s'
  endRegion {s s' : GraphicsState α} : s.Agree s' → r.endRegion s = r.endRegion s'
  endOfFile {s s' : GraphicsState α} : s.Agree s' → r.endOfFile s = r.endOfFile s'

namespace Machine

open GraphicsState

/-! ### Commands -/

section Commands

variable {r : Receiver α σ}

/-- An aperture is defined alike. -/
theorem inStep_defineAperture (hr : r.Blind) (d : ApertureDefinition α) :
    InStep (defineAperture r d) (defineAperture r d) := by
  refine Action.Refines.bind (agree_onState (GraphicsState.refines_defineAperture d)) fun _ => ?_
  refine Action.Refines.bind (agree_tell fun _ _ h => hr.apertureDefined d h) fun _ => ?_
  exact inStep_reselect d.id

/-- A region begins alike. -/
theorem inStep_beginRegion (hr : r.Blind) : InStep (beginRegion r) (beginRegion r) := by
  refine Action.Refines.bind (inStep_modifyState (fun _ => rfl) fun _ => rfl) fun _ => ?_
  refine Action.Refines.bind inStep_reroute fun _ => ?_
  exact agree_tell fun _ _ h => hr.beginRegion h

/-- A region ends alike. -/
theorem inStep_endRegion (hr : r.Blind) : InStep (endRegion r) (endRegion r) := by
  have hleave (result : Except Error Unit) : InStep (σ := σ) (α := α)
      (do
        modifyState fun s => { s with inRegion := false }
        reroute
        Action.ofExcept result)
      (do
        modifyState fun s => { s with inRegion := false }
        reroute
        Action.ofExcept result) := by
    refine Action.Refines.bind (inStep_modifyState (fun _ => rfl) fun _ => rfl) fun _ => ?_
    refine Action.Refines.bind inStep_reroute fun _ => ?_
    exact .ofExcept (fun _ _ _ _ h => h) fun _ _ h => h
  exact Action.Refines.attempt_bind (agree_tell fun _ _ h => hr.endRegion h) (fun _ => hleave _)
    (fun _ => hleave _) fun _ => False.elim

variable [Scalar α]

/-- A draw command is carried out alike. -/
theorem inStep_draw (hr : r.Blind) (c : Coordinates) : InStep (draw r c) (draw r c) := by
  have hsend : Action.Refines (fun _ => False) (AgreeUpTo Loaded)
      (do
        let route ← Action.gets (fun m : Machine α σ => m.route)
        tell fun s => route.send r s s.segment
        modifyState GraphicsState.commit)
      (do
        let route ← Action.gets (fun m : Machine α σ => m.route)
        tell fun s => route.send r s s.segment
        modifyState GraphicsState.commit)
      (fun _ => Agree) Agree := by
    refine Action.Refines.bind (M := fun _ => AgreeUpTo Loaded)
      (.gets fun _ _ hm => ⟨hm.route, hm⟩) fun route => ?_
    have htell : Action.Refines (fun _ => False) (AgreeUpTo Loaded)
        (tell fun s => route.send r s s.segment) (tell fun s => route.send r s s.segment)
        (fun _ => AgreeUpTo Loaded) (AgreeUpTo Loaded) := by
      refine agree_tell fun s s' h => ?_
      rw [h.segment, hr.send _ route h.1]
    refine Action.Refines.bind (htell.weaken (fun _ _ _ hm => hm)
      fun _ _ hm => hm.agree) fun _ => ?_
    exact agree_modifyState fun _ _ h => h.commit
  refine Action.Refines.bind (agree_onState (refines_load c)) fun _ => ?_
  refine Action.Refines.gets_bind (M := Loaded) (fun _ _ hm => hm.state) fun s s' h => ?_
  dsimp only
  rw [h.1.inRegion]
  split
  · exact hsend
  · exact Action.Refines.ofExcept_bind h.1.current (fun _ _ _ => hsend) fun _ _ hm => hm.agree

/-- A move is carried out alike. -/
theorem inStep_move (hr : r.Blind) (c : Coordinates) : InStep (move r c) (move r c) := by
  have hcommit : Action.Refines (fun _ => False) (AgreeUpTo Loaded)
      (modifyState GraphicsState.commit : Action (Machine α σ) Unit)
      (modifyState GraphicsState.commit) (fun _ => Agree) Agree :=
    agree_modifyState fun _ _ h => h.commit
  refine Action.Refines.bind (agree_onState (refines_load c)) fun _ => ?_
  refine Action.Refines.gets_bind (M := Eq) (fun _ _ hm => hm.state.1.inRegion)
    fun inRegion inRegion' h => ?_
  dsimp only
  rw [h]
  split
  · have htell := agree_tell (R := Loaded) fun _ _ h => hr.flushRegion h.1
    exact Action.Refines.bind (htell.weaken (fun _ _ _ hm => hm) fun _ _ hm => hm.agree)
      fun _ => hcommit
  · exact hcommit

/-- A flash is carried out alike. -/
theorem inStep_flash (hr : r.Blind) (c : Coordinates) : InStep (flash r c) (flash r c) := by
  refine Action.Refines.bind (agree_onState (refines_load c)) fun _ => ?_
  refine Action.Refines.gets_bind (M := Loaded) (fun _ _ hm => hm.state) fun s s' h => ?_
  rw [h.1.inRegion]
  split
  · exact .warn fun _ _ hm => hm.agree
  refine Action.Refines.ofExcept_bind h.1.current (fun resolved resolved' houtline => ?_)
    fun _ _ hm => hm.agree
  have hid := Resolved.id_eq_of_outline houtline
  refine Action.Refines.gets_bind (M := fun target target' => target.isSome = target'.isSome)
    (fun _ _ hm => hm.flashTarget) fun target target' hsome => ?_
  cases target with
  | none =>
      obtain rfl : target' = none := Option.not_isSome_iff_eq_none.mp (by simp [← hsome])
      rw [hid]
      exact .fail fun _ _ hm => hm.agree
  | some target =>
      obtain ⟨target', rfl⟩ := Option.isSome_iff_exists.mp hsome.symm
      rw [hid]
      have htell : Action.Refines (fun _ => False) (AgreeUpTo Loaded)
          (tell fun s => r.flash s resolved'.id target s.target)
          (tell fun s => r.flash s resolved'.id target' s.target)
          (fun _ => AgreeUpTo Loaded) (AgreeUpTo Loaded) := by
        refine agree_tell fun s s' h => ?_
        rw [h.target, hr.flash _ target target' _ h.1]
      refine Action.Refines.bind (htell.weaken (fun _ _ _ hm => hm) fun _ _ hm => hm.agree)
        fun _ => ?_
      exact agree_modifyState fun _ _ h => h.commit

/-- **One command.** Machines that agree carry it out alike, unless it gives the format. -/
theorem inStep_perform (hr : r.Blind) {c : Command α} (hformat : ∀ f, c ≠ .format f) :
    InStep (perform r c) (perform r c) := by
  cases c with
  | format f => exact absurd rfl (hformat f)
  | defineAperture d => exact inStep_defineAperture hr d
  | selectAperture id => exact inStep_select id
  | draw c => exact inStep_draw hr c
  | move c => exact inStep_move hr c
  | flash c => exact inStep_flash hr c
  | plotMode mode | quadrant q =>
      exact Action.Refines.bind (inStep_modifyState (fun _ => rfl) fun _ => rfl)
        fun _ => inStep_reroute
  | beginRegion => exact inStep_beginRegion hr
  | endRegion => exact inStep_endRegion hr
  | comment _ | stop | optionalStop | endOfFile => exact .pure fun _ _ hm => hm
  | unit u | legacyUnit u | defineMacro m | polarity p | mirroring m | rotation degrees
  | scale factor | «attribute» kind a | deleteAttribute name =>
      exact inStep_modifyState (fun _ => rfl) fun _ => rfl

end Commands

/-! ### Nodes -/

/-- Nodes with the same code are skipped alike. -/
theorem inStep_skip {node node' : Node α} (hcode : node.code = node'.code) (options : Options)
    (e : Error) :
    InStep (skip options node e : Action (Machine α σ) Unit) (skip options node' e) := by
  unfold skip
  split
  · exact .fail fun _ _ hm => hm
  split
  · exact .fail fun _ _ hm => hm
  · exact .pure fun _ _ hm => hm
  · rw [hcode]
    refine Action.Refines.bind (M := fun _ => Agree) (.warn fun _ _ hm => hm) fun _ => ?_
    exact .modify fun _ _ hm => { hm with diagnostics := by rw [hm.diagnostics] }

/-- The body of a node may be another one. -/
theorem inStep_enter {r : Receiver α σ} (hr : r.Blind) (body body' : List (Node α))
    (frame : Frame α) : InStep (enter r body frame) (enter r body' frame) := by
  cases frame with
  | block id =>
      refine Action.Refines.bind
        (agree_modifyState fun _ _ h => h.defineBlock id body body') fun _ => ?_
      refine Action.Refines.bind (inStep_reselect id) fun _ => ?_
      exact agree_tell fun _ _ h => hr.beginBlock id body body' h
  | stepRepeat grid => exact agree_tell fun _ _ h => hr.beginStepRepeat grid body body' h

/-- The callback at the end of a frame does not depend on the body. -/
theorem closing_eq_closing {r : Receiver α σ} (hr : r.Blind) (body body' : List (Node α))
    (frame : Frame α) {s s' : GraphicsState α} (h : s.Agree s') :
    closing r body frame s = closing r body' frame s' := by
  cases frame with
  | block id => exact hr.endBlock id body body' h
  | stepRepeat grid => exact hr.endStepRepeat grid body body' h

variable {m m' : Machine α σ}

/-- What follows steps that end alike ends alike if it does so from where they end. -/
theorem EndsAlike.bind {γ : Type} {a b : Action (Machine α σ) β}
    {f g : β → Action (Machine α σ) γ} (h : EndsAlike (a m) (b m'))
    (hf : ∀ x, EndsAlike (f x (a m).state) (g x (b m').state)) :
    EndsAlike ((a >>= f) m) ((b >>= g) m') := by
  have hresult := h.result
  cases hr : (a m).result with
  | error e =>
      rw [hr] at hresult
      obtain ⟨har, has⟩ := Action.bind_eq_of_error (f := f) hr
      obtain ⟨hbr, hbs⟩ := Action.bind_eq_of_error (f := g) hresult.symm
      exact ⟨har.trans hbr.symm, has ▸ hbs ▸ h.state⟩
  | ok x =>
      rw [hr] at hresult
      obtain ⟨har, has⟩ := Action.bind_eq_of_ok (f := f) hr
      obtain ⟨hbr, hbs⟩ := Action.bind_eq_of_ok (f := g) hresult.symm
      have hrest := hf x
      exact ⟨by rw [har, hbr, hrest.result], by rw [has, hbs]; exact hrest.state⟩

/-- Bodies that end alike do so between their callbacks. -/
theorem EndsAlike.enclosed {body body' : Action (Machine α σ) Flow}
    {closing closing' : GraphicsState α → Action σ Unit} (hm : m.Agree m')
    (hbody : EndsAlike (body m) (body' m'))
    (hclosing : ∀ s s', s.Agree s' → closing s = closing' s') :
    EndsAlike (Machine.enclosed body closing m) (Machine.enclosed body' closing' m') := by
  obtain ⟨hstate, hresult⟩ := enclosed_eq body closing m
  obtain ⟨hstate', hresult'⟩ := enclosed_eq body' closing' m'
  have hrestored : Agree
      { (body m).state with state := { (body m).state.state with position := m.state.position } }
      { (body' m').state with
        state := { (body' m').state.state with position := m'.state.position } } := by
    rw [hm.state.position]
    exact { hbody.state with state := hbody.state.state.withPosition _ }
  have hclosed := InStep.endsAlike (agree_tell hclosing) hrestored
  exact ⟨by rw [hresult, hresult', hbody.result, hclosed.result], hstate ▸ hstate' ▸ hclosed.state⟩

variable {r : Receiver α σ} [Scalar α]

/-- **Nodes with a body** end alike when their bodies do. -/
theorem EndsAlike.visit_enclose (hr : r.Blind) {options : Options} (frame : Frame α)
    {body body' : List (Node α)} (hm : m.Agree m')
    (hbody : EndsAlike (visitAll r options body (enter r body frame m).state)
      (visitAll r options body' (enter r body' frame m').state)) :
    EndsAlike (visit r options (frame.enclose body) m)
      (visit r options (frame.enclose body') m') := by
  have hentered := (inStep_enter hr body body' frame).endsAlike hm
  rw [Machine.visit_enclose, Machine.visit_enclose]
  refine hentered.bind fun _ => ?_
  exact hbody.enclosed hentered.state fun _ _ h => closing_eq_closing hr body body' frame h

/-- **Nodes in order** end alike when the first ones do and the others are carried out alike. -/
theorem EndsAlike.visitAll_cons {options : Options} {node node' : Node α}
    {rest rest' : List (Node α)}
    (hnode : EndsAlike (visit r options node m) (visit r options node' m'))
    (hcode : node.code = node'.code)
    (hrest : InStep (visitAll r options rest) (visitAll r options rest')) :
    EndsAlike (visitAll r options (node :: rest) m) (visitAll r options (node' :: rest') m') := by
  obtain ⟨hresult, hstate⟩ := Machine.visitAll_cons r options node rest m
  obtain ⟨hresult', hstate'⟩ := Machine.visitAll_cons r options node' rest' m'
  have hproceed : InStep (proceed r options node rest (visit r options node m).result)
      (proceed r options node' rest' (visit r options node m).result) := by
    rcases (visit r options node m).result with e | flow | flow
    · exact Action.Refines.bind (inStep_skip hcode options e) fun _ => hrest
    · exact hrest
    · exact .pure fun _ _ h => h
  have hothers := hproceed.endsAlike hnode.state
  rw [hnode.result] at hothers hresult hstate
  exact ⟨by rw [hresult, hresult', hothers.result], hstate ▸ hstate' ▸ hothers.state⟩

mutual

/-- **One node** without formats in it is carried out alike. -/
theorem inStep_visit (hr : r.Blind) (options : Options) (node : Node α)
    (hformat : ∀ c ∈ node.commands, ∀ f, c ≠ .format f) :
    InStep (visit r options node) (visit r options node) := by
  match node with
  | .command c =>
      rw [visit]
      refine Action.Refines.bind (inStep_perform hr (hformat c (by simp [Node.commands])))
        fun _ => ?_
      exact .pure fun _ _ hm => hm
  | .block id body =>
      have hbody := inStep_visitAll hr options body (by simpa [Node.commands] using hformat)
      exact inStep_of_endsAlike fun m m' hm => EndsAlike.visit_enclose hr (.block id) hm
        (hbody.endsAlike ((inStep_enter hr body body _).endsAlike hm).state)
  | .stepRepeat grid body =>
      have hbody := inStep_visitAll hr options body (by simpa [Node.commands] using hformat)
      exact inStep_of_endsAlike fun m m' hm =>
        EndsAlike.visit_enclose hr (.stepRepeat grid) hm
          (hbody.endsAlike ((inStep_enter hr body body _).endsAlike hm).state)

/-- **Nodes in order** without formats in them are carried out alike. -/
theorem inStep_visitAll (hr : r.Blind) (options : Options) (nodes : List (Node α))
    (hformat : ∀ c ∈ Node.commandsOf nodes, ∀ f, c ≠ .format f) :
    InStep (visitAll r options nodes) (visitAll r options nodes) := by
  match nodes with
  | [] =>
      rw [visitAll]
      exact .pure fun _ _ hm => hm
  | node :: rest =>
      have hnode := inStep_visit hr options node fun c hc =>
        hformat c (by simp [Node.commandsOf, hc])
      have hrest := inStep_visitAll hr options rest fun c hc =>
        hformat c (by simp [Node.commandsOf, hc])
      exact inStep_of_endsAlike fun m m' hm => (hnode.endsAlike hm).visitAll_cons rfl hrest

end

/-- **Whole runs** end alike when their nodes do. -/
theorem EndsAlike.run (hr : r.Blind) {options : Options} {nodes nodes' : List (Node α)}
    (h : EndsAlike (visitAll r options nodes m) (visitAll r options nodes' m')) :
    EndsAlike (run r options nodes m) (run r options nodes' m') := by
  obtain ⟨hstate, hresult⟩ := run_eq r options nodes m
  obtain ⟨hstate', hresult'⟩ := run_eq r options nodes' m'
  have hclosed := InStep.endsAlike (agree_tell fun _ _ => hr.endOfFile) h.state
  exact ⟨by rw [hresult, hresult', h.result, hclosed.result], hstate ▸ hstate' ▸ hclosed.state⟩

end Machine

end Photoplot
