import Photoplot.Proofs.SkippedNodes

/-!
# Programs up to Remarks

Units, attributes and comments are **remarks**: the graphics state records them, and nothing that
is drawn depends on them. Polarities are drawn, but what is drawn where does not depend on them.
Without its remarks, and with its polarities taken by others, a program does the same as before for
every receiver that is as indifferent to them as the graphics state is.

## Recoloring convention

Polarities are taken by others with a function on polarities, a **recoloring**. The identity leaves
all of them alone, and a constant forgets them. A relation named by a recoloring has on its left
what is recolored and on its right what it is recolored to.

## Main definitions

* `Command.essence`, `Node.essenceOf`: a recolored program without remarks.
* `GraphicsState.Recolors`, `Machine.Recolors`: states and machines that differ only in remarks and
  colors.
* `Receiver.Recolors`: a receiver that is told of other colors, and does the same.

## Main results

* `Machine.couples_perform`, `Machine.recolors_of_remark`: a command is carried out alike, and a
  remark as if it were not there.
* `Machine.couples_visitAll`, `Machine.couples_run`: a program does the same as its essence, by
  induction on the nodes.
-/

namespace Photoplot

variable {α σ τ β : Type}

/-! ### Programs -/

/-- The recoloring that forgets all polarities. -/
def Polarity.forget (_ : Polarity) : Polarity := .dark

/-- A recolored command, unless it is a remark. -/
def Command.essence (ρ : Polarity → Polarity) : Command α → Option (Command α)
  | .unit _ | .legacyUnit _ | .attribute _ _ | .deleteAttribute _ | .comment _ => none
  | .polarity p => some (.polarity (ρ p))
  | c => some c

namespace Node

mutual

/-- A recolored node without the remarks in it, unless it is a remark itself. -/
def essence (ρ : Polarity → Polarity) : Node α → Option (Node α)
  | .command c => (c.essence ρ).map .command
  | .block id body => some (.block id (essenceOf ρ body))
  | .stepRepeat grid body => some (.stepRepeat grid (essenceOf ρ body))

/-- Recolored nodes without remarks, at every depth. -/
def essenceOf (ρ : Polarity → Polarity) : List (Node α) → List (Node α)
  | [] => []
  | node :: rest => (node.essence ρ).toList ++ essenceOf ρ rest

end

/-- Only a command can be a remark. -/
theorem exists_of_essence_eq_none {ρ : Polarity → Polarity} {node : Node α}
    (h : node.essence ρ = none) : ∃ c, node = .command c ∧ c.essence ρ = none := by
  cases node with
  | command c => exact ⟨c, rfl, by simpa [essence] using h⟩
  | block id body => simp [essence] at h
  | stepRepeat grid body => simp [essence] at h

end Node

/-- A recolored command has the same code. -/
theorem Command.code_essence {ρ : Polarity → Polarity} {c c' : Command α}
    (h : c.essence ρ = some c') : c.code = c'.code := by
  cases c <;> simp only [essence, Option.some.injEq, reduceCtorEq] at h <;> subst h <;> rfl

/-- A recolored node has the same code. -/
theorem Node.code_essence {ρ : Polarity → Polarity} {node node' : Node α}
    (h : node.essence ρ = some node') : node.code = node'.code := by
  cases node with
  | command c =>
      obtain ⟨c', hc, rfl⟩ := Option.map_eq_some_iff.mp (by simpa only [essence] using h)
      exact c.code_essence hc
  | block id body | stepRepeat grid body =>
      simp only [essence, Option.some.injEq] at h
      exact h ▸ rfl

/-! ### Actions that end alike -/

/-- Two actions that lead from related states to related states, with the same result. -/
abbrev Action.Couples (P : σ → τ → Prop) (a : Action σ β) (b : Action τ β) : Prop :=
  Action.Refines (fun _ => False) P a b (fun _ => P) P

namespace Action

variable {P Q : σ → τ → Prop} {a : Action σ β} {b : Action τ β}

/-- Where no error is doomed, actions that refine each other end with the same result. -/
theorem Refines.ends (h : Refines (fun _ => False) P a b (fun _ => Q) Q) {s : σ} {t : τ}
    (hst : P s t) : (a s).result = (b t).result ∧ Q (a s).state (b t).state := by
  rcases h s t hst with ⟨_, -, hdoomed⟩ | ⟨hresult, hstep⟩
  · exact hdoomed.elim
  · refine ⟨hresult, ?_⟩
    cases hr : (a s).result <;> rw [hr] at hstep <;> exact hstep

/-- Actions that end with the same result refine each other. -/
theorem refines_of_ends
    (h : ∀ s t, P s t → (a s).result = (b t).result ∧ Q (a s).state (b t).state) :
    Refines (fun _ => False) P a b (fun _ => Q) Q := by
  refine .of_steps fun s t hst => ⟨(h s t hst).1, ?_⟩
  cases (a s).result <;> exact (h s t hst).2

end Action

/-! ### Graphics states -/

/-- A transform with another polarity. -/
def Transform.recolor (ρ : Polarity → Polarity) (t : Transform α) : Transform α :=
  { t with polarity := ρ t.polarity }

namespace GraphicsState

variable {ρ : Polarity → Polarity} {s s' : GraphicsState α}

/-- The recolored state without what remarks leave in it, and without apertures and blocks. -/
def outlook (ρ : Polarity → Polarity) (s : GraphicsState α) : GraphicsState α :=
  { s with
    unit := .metric
    transform := s.transform.recolor ρ
    apertures := ∅
    blocks := ∅
    attributes := {}
    snapshots := ∅ }

/-- The second state is the first one recolored, apart from remarks and the bodies of blocks. What
is defined is the same under every id, in whatever order it was defined. -/
structure Recolors (ρ : Polarity → Polarity) (s s' : GraphicsState α) : Prop where
  same : s.outlook ρ = s'.outlook id
  apertures (id : ApertureId) : s.apertures[id]? = s'.apertures[id]?
  blocks (id : ApertureId) : s.blocks[id]?.map Block.id = s'.blocks[id]?.map Block.id

/-- Before the first command only the dark polarity is set, which stays dark. -/
theorem recolors_initial [Scalar α] (hdark : ρ .dark = .dark) :
    (initial : GraphicsState α).Recolors ρ initial where
  same := by simp [outlook, initial, Transform.initial, Transform.recolor, hdark]
  apertures _ := rfl
  blocks _ := rfl

/-- A change that is the same with or without what the outlook leaves out. -/
theorem Recolors.map (h : s.Recolors ρ s') {f : GraphicsState α → GraphicsState α}
    (houtlook : ∀ (ρ : Polarity → Polarity) (s : GraphicsState α),
      (f s).outlook ρ = f (s.outlook ρ))
    (hdefined : ∀ s, (f s).apertures = s.apertures ∧ (f s).blocks = s.blocks) :
    (f s).Recolors ρ (f s') where
  same := by rw [houtlook, houtlook, h.same]
  apertures id := by rw [(hdefined s).1, (hdefined s').1, h.apertures]
  blocks id := by rw [(hdefined s).2, (hdefined s').2, h.blocks]

/-- But for colors, remarks and the order of definitions the states agree. -/
theorem Recolors.agree (h : s.Recolors ρ s') :
    { s.outlook ρ with apertures := s'.apertures, blocks := s.blocks }.Agree
      { s'.outlook id with apertures := s'.apertures, blocks := s'.blocks } where
  same := by
    show { (s.outlook ρ).forget with apertures := s'.apertures } =
      { (s'.outlook id).forget with apertures := s'.apertures }
    rw [h.same]
  blocks := h.blocks

/-- An id stands for what it stands for when the apertures are those of the other state. -/
theorem Recolors.resolve_agree (h : s.Recolors ρ s') (id : ApertureId) :
    { s.outlook ρ with apertures := s'.apertures, blocks := s.blocks }.resolve id =
      s.resolve id := by
  simp only [GraphicsState.resolve, h.apertures id]

/-- The selected aperture stands for what it stands for when the apertures are those of the other
state. -/
theorem Recolors.current_agree (h : s.Recolors ρ s') :
    { s.outlook ρ with apertures := s'.apertures, blocks := s.blocks }.current = s.current := by
  have hselected : { s.outlook ρ with
      apertures := s'.apertures, blocks := s.blocks }.selected = s.selected := rfl
  rw [GraphicsState.current, GraphicsState.current, hselected]
  cases s.selected with
  | none => rfl
  | some id => exact h.resolve_agree id

/-- The transform is recolored. -/
theorem Recolors.transform (h : s.Recolors ρ s') : s'.transform = s.transform.recolor ρ :=
  congrArg (·.transform) h.same.symm

/-- A format is in use on both sides or on none. -/
theorem Recolors.formatInUse (h : s.Recolors ρ s') : s.formatInUse = s'.formatInUse :=
  congrArg (·.formatInUse) h.same

/-- The same coordinates are pending. -/
theorem Recolors.pending (h : s.Recolors ρ s') : s.pending = s'.pending :=
  congrArg (·.pending) h.same

/-- Both sides are in a region or none is. -/
theorem Recolors.inRegion (h : s.Recolors ρ s') : s.inRegion = s'.inRegion := h.agree.inRegion

/-- The current point is the same. -/
theorem Recolors.position (h : s.Recolors ρ s') : s.position = s'.position := h.agree.position

/-- Coordinates are read in the same format. -/
theorem Recolors.format (h : s.Recolors ρ s') : s.format = s'.format := h.agree.format

/-- The same macros are known. -/
theorem Recolors.macros (h : s.Recolors ρ s') : s.macros = s'.macros := h.agree.macros

/-- An id stands for the same, apart from the bodies of blocks. -/
theorem Recolors.resolve (h : s.Recolors ρ s') (id : ApertureId) :
    (s.resolve id).map Resolved.outline = (s'.resolve id).map Resolved.outline := by
  rw [← h.resolve_agree]
  exact h.agree.resolve id

/-- The selected aperture stands for the same, apart from the body of a block. -/
theorem Recolors.current (h : s.Recolors ρ s') :
    s.current.map Resolved.outline = s'.current.map Resolved.outline := by
  rw [← h.current_agree]
  exact h.agree.current

/-- The segment of a draw command is the same. -/
theorem Recolors.segment [Scalar α] (h : s.Recolors ρ s') : s.segment = s'.segment := by
  have hloaded : Loaded { s.outlook ρ with apertures := s'.apertures, blocks := s.blocks }
      { s'.outlook id with apertures := s'.apertures, blocks := s'.blocks } := ⟨h.agree, h.pending⟩
  exact hloaded.segment

/-- An operation is on its way to the same point. -/
theorem Recolors.target [Scalar α] (h : s.Recolors ρ s') : s.target = s'.target :=
  congrArg (·.stop) h.segment

/-- A block may have another body. -/
theorem Recolors.defineBlock (h : s.Recolors ρ s') (id : ApertureId)
    (body body' : List (Node α)) :
    (s.defineBlock ⟨id, body⟩).Recolors ρ (s'.defineBlock ⟨id, body'⟩) where
  same := h.same
  apertures other := by
    simp only [GraphicsState.defineBlock, Std.TreeMap.getElem?_erase, h.apertures]
  blocks := (h.agree.defineBlock id body body').blocks

/-- The format is set on both sides. -/
theorem couples_setFormat (f : CoordinateFormat) :
    Action.Couples (Recolors ρ) (setFormat f : Action (GraphicsState α) Unit) (setFormat f) := by
  refine Action.Refines.get_bind (M := Recolors ρ) (fun _ _ h => h) fun s s' h => ?_
  rw [h.formatInUse, h.format]
  split
  · exact .fail fun _ _ h => h
  · exact .modify fun _ _ h =>
      h.map (f := fun s => { s with format := some f }) (fun _ _ => rfl) fun _ => ⟨rfl, rfl⟩

/-- Coordinates are read on both sides. -/
theorem couples_load [Scalar α] (c : Coordinates) :
    Action.Couples (Recolors ρ) (load c : Action (GraphicsState α) Unit) (load c) := by
  refine Action.Refines.bind (M := fun _ => Recolors ρ)
    (.modify fun _ _ h =>
      h.map (f := fun s => { s with pending := {} }) (fun _ _ => rfl) fun _ => ⟨rfl, rfl⟩)
    fun _ => ?_
  split
  · exact .pure fun _ _ h => h
  refine Action.Refines.get_bind (M := fun s s' => s.format = s'.format)
    (fun _ _ h => h.format) fun s s' hformat => ?_
  rw [hformat]
  split
  · exact .fail fun _ _ h => h
  · refine Action.Refines.bind (M := fun _ => Recolors ρ)
      (.ofExcept (fun _ _ _ _ h => h) fun _ _ h => h) fun pending => ?_
    exact .modify fun _ _ h =>
      h.map (f := fun s => { s with pending, formatInUse := true }) (fun _ _ => rfl)
        fun _ => ⟨rfl, rfl⟩

/-- An aperture is defined in both states. -/
theorem couples_defineAperture (d : ApertureDefinition α) :
    Action.Couples (Recolors ρ) (defineAperture d) (defineAperture d) := by
  have hdefine : Action.Couples (Recolors ρ)
      (Action.modify fun s : GraphicsState α =>
        { s with
          blocks := s.blocks.erase d.id
          apertures := s.apertures.insert d.id d
          snapshots := s.snapshots.insert d.id s.attributes.aperture })
      (Action.modify fun s : GraphicsState α =>
        { s with
          blocks := s.blocks.erase d.id
          apertures := s.apertures.insert d.id d
          snapshots := s.snapshots.insert d.id s.attributes.aperture }) := by
    refine .modify fun s s' h => ⟨h.same, fun id => ?_, fun id => ?_⟩
    · simp only [Std.TreeMap.getElem?_insert, h.apertures]
    · simp only [Std.TreeMap.getElem?_erase]
      split
      · rfl
      · exact h.blocks id
  refine Action.Refines.get_bind (M := fun s s' => s.macros = s'.macros)
    (fun _ _ h => h.macros) fun s s' hmacros => ?_
  dsimp only
  split
  · rw [hmacros]
    split
    · exact hdefine
    · exact Action.Refines.bind (M := fun _ => Recolors ρ) (.fail fun _ _ h => h) fun _ => hdefine
  · exact hdefine

end GraphicsState

namespace Machine

variable {ρ : Polarity → Polarity} {S : σ → τ → Prop}

/-! ### Machines -/

/-- The second machine is the first one recolored, apart from remarks, the bodies of blocks and
what would be flashed. -/
structure Recolors (ρ : Polarity → Polarity) (S : σ → τ → Prop) (m : Machine α σ)
    (m' : Machine α τ) : Prop where
  state : m.state.Recolors ρ m'.state
  flashTarget : m.flashTarget.isSome = m'.flashTarget.isSome
  route : m.route = m'.route
  receiver : S m.receiver m'.receiver
  diagnostics : m.diagnostics = m'.diagnostics

/-- Before the first command machines differ in nothing but what their receivers may differ in. -/
theorem recolors_initial [Scalar α] (hdark : ρ .dark = .dark) {c : σ} {c' : τ} (h : S c c') :
    Recolors ρ S (initial c : Machine α σ) (initial c') :=
  ⟨GraphicsState.recolors_initial hdark, rfl, rfl, h, rfl⟩

/-- A change of the graphics state is made on both sides. -/
theorem couples_modifyState {f f' : GraphicsState α → GraphicsState α}
    (h : ∀ s s', s.Recolors ρ s' → (f s).Recolors ρ (f' s')) :
    Action.Couples (Recolors ρ S) (modifyState f) (modifyState f') :=
  .modify fun _ _ hm => { hm with state := h _ _ hm.state }

/-- A change that is the same with or without what the outlook leaves out is made alike. -/
theorem couples_modifyState_self {f : GraphicsState α → GraphicsState α}
    (houtlook : ∀ (ρ : Polarity → Polarity) (s : GraphicsState α),
      (f s).outlook ρ = f (s.outlook ρ))
    (hdefined : ∀ s, (f s).apertures = s.apertures ∧ (f s).blocks = s.blocks) :
    Action.Couples (Recolors ρ S) (modifyState f) (modifyState f) :=
  couples_modifyState fun _ _ h => h.map houtlook hdefined

/-- An action on the graphics state is taken on both sides. -/
theorem couples_onState {a b : Action (GraphicsState α) β}
    (h : Action.Couples (GraphicsState.Recolors ρ) a b) :
    Action.Couples (Recolors ρ S) (onState a) (onState b) :=
  Action.refines_of_ends fun _ _ hm =>
    ⟨(h.ends hm.state).1, { hm with state := (h.ends hm.state).2 }⟩

/-- A callback is told on both sides, with the colors of each. -/
theorem couples_tell {callback : GraphicsState α → Action σ Unit}
    {callback' : GraphicsState α → Action τ Unit}
    (h : ∀ s s', s.Recolors ρ s' → Action.Couples S (callback s) (callback' s')) :
    Action.Couples (Recolors ρ S) (tell callback) (tell callback') :=
  Action.refines_of_ends fun _ _ hm =>
    have hstep := (h _ _ hm.state).ends hm.receiver
    ⟨hstep.1, { hm with receiver := hstep.2 }⟩

/-- The route is looked up on both sides. -/
theorem couples_reroute :
    Action.Couples (Recolors ρ S) (reroute : Action (Machine α σ) Unit) reroute :=
  .modify fun _ _ hm => { hm with route := hm.state.agree.modes }

/-- An aperture is selected on both sides. -/
theorem couples_select (id : ApertureId) :
    Action.Couples (Recolors ρ S) (select id : Action (Machine α σ) Unit) (select id) := by
  refine Action.Refines.bind (M := fun _ => Recolors ρ S) (.modify fun m m' hm => ?_) fun _ => ?_
  · exact { hm with
      state := hm.state.map (f := fun s => { s with selected := some id }) (fun _ _ => rfl)
        fun _ => ⟨rfl, rfl⟩
      flashTarget := rfl }
  refine Action.Refines.gets_bind
    (M := fun found found' => found.map Resolved.outline = found'.map Resolved.outline)
    (fun _ _ hm => hm.state.resolve id) fun found found' h => ?_
  rcases Action.exists_of_map_eq h with ⟨e, rfl, rfl⟩ | ⟨resolved, resolved', rfl, rfl, houtline⟩
  · exact .pure fun _ _ hm => hm
  · refine Action.Refines.ofExcept_bind (map_ofResolved houtline) (fun target target' _ => ?_)
      fun _ _ hm => hm
    exact .modify fun m m' hm => { hm with flashTarget := rfl }

/-- The selected aperture is looked up anew on both sides. -/
theorem couples_reselect (id : ApertureId) :
    Action.Couples (Recolors ρ S) (reselect id : Action (Machine α σ) Unit) (reselect id) := by
  refine Action.Refines.gets_bind (M := Eq) (fun _ _ hm => hm.state.agree.selected)
    fun selected selected' h => ?_
  rw [h]
  split
  · exact couples_select id
  · exact .pure fun _ _ hm => hm

end Machine

/-! ### Receivers -/

/-- A receiver that is told of other colors, in a state that is related to its own, ends alike in
a related state. The bodies of nodes and what would be flashed are nothing to it. -/
structure Receiver.Recolors (ρ : Polarity → Polarity) (S : σ → σ → Prop) (r : Receiver α σ) :
    Prop where
  apertureDefined {s s' : GraphicsState α} (d : ApertureDefinition α) :
    s.Recolors ρ s' → Action.Couples S (r.apertureDefined s d) (r.apertureDefined s' d)
  beginBlock {s s' : GraphicsState α} (id : ApertureId) (body body' : List (Node α)) :
    s.Recolors ρ s' → Action.Couples S (r.beginBlock s ⟨id, body⟩) (r.beginBlock s' ⟨id, body'⟩)
  endBlock {s s' : GraphicsState α} (id : ApertureId) (body body' : List (Node α)) :
    s.Recolors ρ s' → Action.Couples S (r.endBlock s ⟨id, body⟩) (r.endBlock s' ⟨id, body'⟩)
  beginStepRepeat {s s' : GraphicsState α} (grid : Grid α) (body body' : List (Node α)) :
    s.Recolors ρ s' →
      Action.Couples S (r.beginStepRepeat s ⟨grid, body⟩) (r.beginStepRepeat s' ⟨grid, body'⟩)
  endStepRepeat {s s' : GraphicsState α} (grid : Grid α) (body body' : List (Node α)) :
    s.Recolors ρ s' →
      Action.Couples S (r.endStepRepeat s ⟨grid, body⟩) (r.endStepRepeat s' ⟨grid, body'⟩)
  flash {s s' : GraphicsState α} (id : ApertureId) (target target' : FlashTarget α)
    (center : Point α) :
    s.Recolors ρ s' → Action.Couples S (r.flash s id target center) (r.flash s' id target' center)
  send {s s' : GraphicsState α} (segment : Segment α) (route : Route) :
    s.Recolors ρ s' → Action.Couples S (route.send r s segment) (route.send r s' segment)
  beginRegion {s s' : GraphicsState α} :
    s.Recolors ρ s' → Action.Couples S (r.beginRegion s) (r.beginRegion s')
  flushRegion {s s' : GraphicsState α} :
    s.Recolors ρ s' → Action.Couples S (r.flushRegion s) (r.flushRegion s')
  endRegion {s s' : GraphicsState α} :
    s.Recolors ρ s' → Action.Couples S (r.endRegion s) (r.endRegion s')
  endOfFile {s s' : GraphicsState α} :
    s.Recolors ρ s' → Action.Couples S (r.endOfFile s) (r.endOfFile s')

namespace Machine

variable {ρ : Polarity → Polarity} {S : σ → σ → Prop} {r : Receiver α σ}

/-! ### Commands -/

section Commands

/-- An aperture is defined on both machines. -/
theorem couples_defineAperture (hr : r.Recolors ρ S) (d : ApertureDefinition α) :
    Action.Couples (Recolors ρ S) (defineAperture r d) (defineAperture r d) := by
  refine Action.Refines.bind
    (couples_onState (GraphicsState.couples_defineAperture d)) fun _ => ?_
  refine Action.Refines.bind (couples_tell fun _ _ h => hr.apertureDefined d h) fun _ => ?_
  exact couples_reselect d.id

/-- A region begins on both sides. -/
theorem couples_beginRegion (hr : r.Recolors ρ S) :
    Action.Couples (Recolors ρ S) (beginRegion r) (beginRegion r) := by
  refine Action.Refines.bind
    (couples_modifyState_self (fun _ _ => rfl) fun _ => ⟨rfl, rfl⟩) fun _ => ?_
  refine Action.Refines.bind couples_reroute fun _ => ?_
  exact couples_tell fun _ _ h => hr.beginRegion h

/-- A region ends on both sides. -/
theorem couples_endRegion (hr : r.Recolors ρ S) :
    Action.Couples (Recolors ρ S) (endRegion r) (endRegion r) := by
  have hleave (result : Except Error Unit) : Action.Couples (Recolors (α := α) ρ S)
      (do
        modifyState fun s => { s with inRegion := false }
        reroute
        Action.ofExcept result)
      (do
        modifyState fun s => { s with inRegion := false }
        reroute
        Action.ofExcept result) := by
    refine Action.Refines.bind
      (couples_modifyState_self (fun _ _ => rfl) fun _ => ⟨rfl, rfl⟩) fun _ => ?_
    refine Action.Refines.bind couples_reroute fun _ => ?_
    exact .ofExcept (fun _ _ _ _ h => h) fun _ _ h => h
  exact Action.Refines.attempt_bind (couples_tell fun _ _ h => hr.endRegion h) (fun _ => hleave _)
    (fun _ => hleave _) fun _ => False.elim

variable [Scalar α]

/-- An operation is done on both sides. -/
theorem couples_commit :
    Action.Couples (Recolors ρ S) (modifyState GraphicsState.commit : Action (Machine α σ) Unit)
      (modifyState GraphicsState.commit) :=
  couples_modifyState_self (fun _ _ => rfl) fun _ => ⟨rfl, rfl⟩

/-- A draw command is carried out on both sides. -/
theorem couples_draw (hr : r.Recolors ρ S) (c : Coordinates) :
    Action.Couples (Recolors ρ S) (draw r c) (draw r c) := by
  have hsend : Action.Couples (Recolors ρ S)
      (do
        let route ← Action.gets (fun m : Machine α σ => m.route)
        tell fun s => route.send r s s.segment
        modifyState GraphicsState.commit)
      (do
        let route ← Action.gets (fun m : Machine α σ => m.route)
        tell fun s => route.send r s s.segment
        modifyState GraphicsState.commit) := by
    refine Action.Refines.bind (M := fun _ => Recolors ρ S)
      (.gets fun _ _ hm => ⟨hm.route, hm⟩) fun route => ?_
    refine Action.Refines.bind (couples_tell fun s s' h => ?_) fun _ => couples_commit
    rw [h.segment]
    exact hr.send _ route h
  refine Action.Refines.bind (couples_onState (GraphicsState.couples_load c)) fun _ => ?_
  refine Action.Refines.gets_bind (M := GraphicsState.Recolors ρ) (fun _ _ hm => hm.state)
    fun s s' h => ?_
  dsimp only
  rw [h.inRegion]
  split
  · exact hsend
  · exact Action.Refines.ofExcept_bind h.current (fun _ _ _ => hsend) fun _ _ hm => hm

/-- A move is carried out on both sides. -/
theorem couples_move (hr : r.Recolors ρ S) (c : Coordinates) :
    Action.Couples (Recolors ρ S) (move r c) (move r c) := by
  refine Action.Refines.bind (couples_onState (GraphicsState.couples_load c)) fun _ => ?_
  refine Action.Refines.gets_bind (M := Eq) (fun _ _ hm => hm.state.inRegion)
    fun inRegion inRegion' h => ?_
  dsimp only
  rw [h]
  split
  · exact Action.Refines.bind (couples_tell fun _ _ h => hr.flushRegion h) fun _ => couples_commit
  · exact couples_commit

/-- A flash is carried out on both sides. -/
theorem couples_flash (hr : r.Recolors ρ S) (c : Coordinates) :
    Action.Couples (Recolors ρ S) (flash r c) (flash r c) := by
  refine Action.Refines.bind (couples_onState (GraphicsState.couples_load c)) fun _ => ?_
  refine Action.Refines.gets_bind (M := GraphicsState.Recolors ρ) (fun _ _ hm => hm.state)
    fun s s' h => ?_
  rw [h.inRegion]
  split
  · exact .warn fun _ _ hm => hm
  refine Action.Refines.ofExcept_bind h.current (fun resolved resolved' houtline => ?_)
    fun _ _ hm => hm
  rw [Resolved.id_eq_of_outline houtline]
  refine Action.Refines.gets_bind (M := fun target target' => target.isSome = target'.isSome)
    (fun _ _ hm => hm.flashTarget) fun target target' hsome => ?_
  cases target with
  | none =>
      obtain rfl : target' = none := Option.not_isSome_iff_eq_none.mp (by simp [← hsome])
      exact .fail fun _ _ hm => hm
  | some target =>
      obtain ⟨target', rfl⟩ := Option.isSome_iff_exists.mp hsome.symm
      refine Action.Refines.bind (couples_tell fun s s' h => ?_) fun _ => couples_commit
      rw [h.target]
      exact hr.flash _ target target' _ h

/-- **One command** and its recoloring are carried out alike. -/
theorem couples_perform (hr : r.Recolors ρ S) {c c' : Command α} (hc : c.essence ρ = some c') :
    Action.Couples (Recolors ρ S) (perform r c) (perform r c') := by
  cases c <;> simp only [Command.essence, Option.some.injEq, reduceCtorEq] at hc <;> subst hc
  case format f => exact couples_onState (GraphicsState.couples_setFormat f)
  case defineAperture d => exact couples_defineAperture hr d
  case selectAperture id => exact couples_select id
  case draw c => exact couples_draw hr c
  case move c => exact couples_move hr c
  case flash c => exact couples_flash hr c
  case plotMode | quadrant =>
    exact Action.Refines.bind (couples_modifyState_self (fun _ _ => rfl) fun _ => ⟨rfl, rfl⟩)
      fun _ => couples_reroute
  case beginRegion => exact couples_beginRegion hr
  case endRegion => exact couples_endRegion hr
  case polarity p =>
    exact couples_modifyState fun s s' h =>
      ⟨congrArg (fun s => { s with transform := { s.transform with polarity := ρ p } }) h.same,
        h.apertures, h.blocks⟩
  case stop | optionalStop | endOfFile => exact .pure fun _ _ hm => hm
  case defineMacro | mirroring | rotation | scale =>
    exact couples_modifyState_self (fun _ _ => rfl) fun _ => ⟨rfl, rfl⟩

omit [Scalar α] in
/-- A recolored command stops the run if the command does. -/
theorem stops_essence (options : Options) {c c' : Command α} (hc : c.essence ρ = some c') :
    stops options c = stops options c' := by
  cases c <;> simp only [Command.essence, Option.some.injEq, reduceCtorEq] at hc <;> subst hc <;>
    rfl

/-- **A remark** is carried out as if it were not there. -/
theorem recolors_of_remark (r : Receiver α σ) (options : Options) {c : Command α}
    (hc : c.essence ρ = none) {m m' : Machine α σ} (hm : Recolors ρ S m m') :
    (visit r options (.command c) m).result = .ok .continue ∧
      Recolors ρ S (visit r options (.command c) m).state m' := by
  have hsame {f : GraphicsState α → GraphicsState α}
      (houtlook : ∀ s, (f s).outlook ρ = s.outlook ρ)
      (hdefined : ∀ s, (f s).apertures = s.apertures ∧ (f s).blocks = s.blocks) :
      Recolors ρ S { m with state := f m.state } m' :=
    { hm with
      state := ⟨(houtlook _).trans hm.state.same,
        fun id => by rw [(hdefined _).1, hm.state.apertures],
        fun id => by rw [(hdefined _).2, hm.state.blocks]⟩ }
  rw [visit]
  cases c <;> simp only [Command.essence, reduceCtorEq] at hc
  case comment => exact ⟨rfl, hm⟩
  case unit u | legacyUnit u =>
    exact ⟨rfl, hsame (f := fun s => { s with unit := u }) (fun _ => rfl) fun _ => ⟨rfl, rfl⟩⟩
  case «attribute» kind a =>
    exact ⟨rfl, hsame (f := .setAttribute kind a) (fun _ => rfl) fun _ => ⟨rfl, rfl⟩⟩
  case deleteAttribute name =>
    exact ⟨rfl, hsame (f := .deleteAttribute name) (fun _ => rfl) fun _ => ⟨rfl, rfl⟩⟩

end Commands

/-! ### Nodes -/

/-- Nodes of the same code are skipped on both sides. -/
theorem couples_skip {node node' : Node α} (hcode : node.code = node'.code) (options : Options)
    (e : Error) :
    Action.Couples (Recolors ρ S) (skip options node e : Action (Machine α σ) Unit)
      (skip options node' e) := by
  unfold skip
  split
  · exact .fail fun _ _ hm => hm
  split
  · exact .fail fun _ _ hm => hm
  · exact .pure fun _ _ hm => hm
  · rw [hcode]
    refine Action.Refines.bind (M := fun _ => Recolors ρ S) (.warn fun _ _ hm => hm) fun _ => ?_
    exact .modify fun _ _ hm => { hm with diagnostics := by rw [hm.diagnostics] }

/-- The body of a node may be another one. -/
theorem couples_enter (hr : r.Recolors ρ S) (body body' : List (Node α)) (frame : Frame α) :
    Action.Couples (Recolors ρ S) (enter r body frame) (enter r body' frame) := by
  cases frame with
  | block id =>
      refine Action.Refines.bind
        (couples_modifyState fun _ _ h => h.defineBlock id body body') fun _ => ?_
      refine Action.Refines.bind (couples_reselect id) fun _ => ?_
      exact couples_tell fun _ _ h => hr.beginBlock id body body' h
  | stepRepeat grid => exact couples_tell fun _ _ h => hr.beginStepRepeat grid body body' h

/-- A frame is closed on both sides, whatever its body. -/
theorem couples_closing (hr : r.Recolors ρ S) (body body' : List (Node α)) (frame : Frame α)
    {s s' : GraphicsState α} (h : s.Recolors ρ s') :
    Action.Couples S (closing r body frame s) (closing r body' frame s') := by
  cases frame with
  | block id => exact hr.endBlock id body body' h
  | stepRepeat grid => exact hr.endStepRepeat grid body body' h

/-- Bodies that are run alike are so between their callbacks. -/
theorem refines_enclosed_recolors {P : Machine α σ → Machine α σ → Prop}
    (hP : ∀ m m', P m m' → Recolors ρ S m m') {body body' : Action (Machine α σ) Flow}
    {closing closing' : GraphicsState α → Action σ Unit}
    (hbody : Action.Refines (fun _ => False) P body body' (fun _ => Recolors ρ S) (Recolors ρ S))
    (hclosing : ∀ s s', s.Recolors ρ s' → Action.Couples S (closing s) (closing' s')) :
    Action.Refines (fun _ => False) P (enclosed body closing) (enclosed body' closing')
      (fun _ => Recolors ρ S) (Recolors ρ S) := by
  refine Action.refines_of_ends fun m m' hmP => ?_
  have hm := hP m m' hmP
  obtain ⟨hstate, hresult⟩ := enclosed_eq body closing m
  obtain ⟨hstate', hresult'⟩ := enclosed_eq body' closing' m'
  obtain ⟨hflow, hended⟩ := hbody.ends hmP
  have hrestored : Recolors ρ S
      { (body m).state with state := { (body m).state.state with position := m.state.position } }
      { (body' m').state with
        state := { (body' m').state.state with position := m'.state.position } } := by
    rw [hm.state.position]
    exact { hended with
      state := hended.state.map (f := fun s => { s with position := m'.state.position })
        (fun _ _ => rfl) fun _ => ⟨rfl, rfl⟩ }
  obtain ⟨hclosed, hdone⟩ := (couples_tell hclosing).ends hrestored
  exact ⟨by rw [hresult, hresult', hflow, hclosed], hstate ▸ hstate' ▸ hdone⟩

variable [Scalar α]

/-- Nodes with a body are carried out alike when their bodies are, from where the frame leads. -/
theorem refines_enclose (hr : r.Recolors ρ S) {options : Options}
    {P Q : Machine α σ → Machine α σ → Prop} (hP : ∀ m m', P m m' → Recolors ρ S m m')
    (hQ : ∀ m m', Q m m' → Recolors ρ S m m') (frame : Frame α) {body body' : List (Node α)}
    (hentered : ∀ m m', P m m' → (enter r body frame m).result = .ok () →
      Q (enter r body frame m).state (enter r body' frame m').state)
    (hbody : Action.Refines (fun _ => False) Q (visitAll r options body)
      (visitAll r options body') (fun _ => Recolors ρ S) (Recolors ρ S)) :
    Action.Refines (fun _ => False) P (visit r options (frame.enclose body))
      (visit r options (frame.enclose body')) (fun _ => Recolors ρ S) (Recolors ρ S) := by
  rw [visit_enclose, visit_enclose]
  refine Action.Refines.bind (M := fun _ => Q) (.of_steps fun m m' hm => ?_) fun _ => ?_
  · obtain ⟨hresult, hstate⟩ := (couples_enter hr body body' frame).ends (hP m m' hm)
    refine ⟨hresult, ?_⟩
    cases hframe : (enter r body frame m).result with
    | error e => exact hstate
    | ok _ => exact hentered m m' hm hframe
  · exact refines_enclosed_recolors hQ hbody fun _ _ h => couples_closing hr body body' frame h

/-- Nodes with a body are carried out alike when their bodies are. -/
theorem couples_enclose (hr : r.Recolors ρ S) {options : Options} (frame : Frame α)
    {body body' : List (Node α)}
    (hbody : Action.Couples (Recolors ρ S) (visitAll r options body) (visitAll r options body')) :
    Action.Couples (Recolors ρ S) (visit r options (frame.enclose body))
      (visit r options (frame.enclose body')) :=
  refines_enclose hr (fun _ _ hm => hm) (fun _ _ hm => hm) frame
    (fun _ _ hm _ => ((couples_enter hr body body' frame).ends hm).2) hbody

/-- Nodes in order are carried out alike when the first ones and the others are. -/
theorem refines_visitAll_cons {P : Machine α σ → Machine α σ → Prop} {options : Options}
    {node node' : Node α} {rest rest' : List (Node α)} (hcode : node.code = node'.code)
    (hnode : Action.Refines (fun _ => False) P (visit r options node) (visit r options node')
      (fun _ => Recolors ρ S) (Recolors ρ S))
    (hrest : Action.Couples (Recolors ρ S) (visitAll r options rest) (visitAll r options rest')) :
    Action.Refines (fun _ => False) P (visitAll r options (node :: rest))
      (visitAll r options (node' :: rest')) (fun _ => Recolors ρ S) (Recolors ρ S) := by
  rw [visitAll, visitAll]
  refine Action.Refines.attempt_bind hnode (fun flow => ?_) (fun e => ?_) fun _ => False.elim
  · cases flow with
    | «continue» => exact hrest
    | halt => exact .pure fun _ _ hm => hm
  · exact Action.Refines.bind (couples_skip hcode options e) fun _ => hrest

/-- A remark does not matter to the nodes after it. -/
theorem couples_visitAll_remark {options : Options} {c : Command α} {rest rest' : List (Node α)}
    (hc : c.essence ρ = none)
    (hrest : Action.Couples (Recolors ρ S) (visitAll r options rest) (visitAll r options rest')) :
    Action.Couples (Recolors ρ S) (visitAll r options (.command c :: rest))
      (visitAll r options rest') := by
  refine Action.refines_of_ends fun m m' hm => ?_
  obtain ⟨hresult, hstate⟩ := visitAll_cons r options (.command c) rest m
  obtain ⟨hremark, hpassed⟩ := recolors_of_remark r options hc hm
  rw [hremark] at hresult hstate
  obtain ⟨hothers, hended⟩ := hrest.ends hpassed
  exact ⟨hresult.trans hothers, hstate ▸ hended⟩

mutual

/-- **One node** and its essence are carried out alike. -/
theorem couples_visit (hr : r.Recolors ρ S) (options : Options) (node node' : Node α)
    (hnode : node.essence ρ = some node') :
    Action.Couples (Recolors ρ S) (visit r options node) (visit r options node') := by
  match node with
  | .command c =>
      obtain ⟨c', hc, rfl⟩ := Option.map_eq_some_iff.mp (by simpa only [Node.essence] using hnode)
      rw [visit, visit, stops_essence options hc]
      exact Action.Refines.bind (couples_perform hr hc) fun _ => .pure fun _ _ hm => hm
  | .block id body =>
      obtain rfl : Node.block id (Node.essenceOf ρ body) = node' := by
        simpa only [Node.essence, Option.some.injEq] using hnode
      exact couples_enclose hr (.block id) (couples_visitAll hr options body)
  | .stepRepeat grid body =>
      obtain rfl : Node.stepRepeat grid (Node.essenceOf ρ body) = node' := by
        simpa only [Node.essence, Option.some.injEq] using hnode
      exact couples_enclose hr (.stepRepeat grid) (couples_visitAll hr options body)

/-- **Nodes in order** and their essence are carried out alike. -/
theorem couples_visitAll (hr : r.Recolors ρ S) (options : Options) (nodes : List (Node α)) :
    Action.Couples (Recolors ρ S) (visitAll r options nodes)
      (visitAll r options (Node.essenceOf ρ nodes)) := by
  match nodes with
  | [] =>
      rw [Node.essenceOf, visitAll]
      exact .pure fun _ _ hm => hm
  | node :: rest =>
      have hrest := couples_visitAll hr options rest
      rw [Node.essenceOf]
      cases hessence : node.essence ρ with
      | none =>
          obtain ⟨c, rfl, hc⟩ := Node.exists_of_essence_eq_none hessence
          exact couples_visitAll_remark hc hrest
      | some node' =>
          exact refines_visitAll_cons (Node.code_essence hessence)
            (couples_visit hr options node node' hessence) hrest

end

/-- **Whole runs** of a program and its essence end alike. -/
theorem couples_run (hr : r.Recolors ρ S) (options : Options) (nodes : List (Node α)) :
    Action.Couples (Recolors ρ S) (run r options nodes)
      (run r options (Node.essenceOf ρ nodes)) := by
  refine Action.refines_of_ends fun m m' hm => ?_
  obtain ⟨hstate, hresult⟩ := run_eq r options nodes m
  obtain ⟨hstate', hresult'⟩ := run_eq r options (Node.essenceOf ρ nodes) m'
  obtain ⟨hflow, hended⟩ := (couples_visitAll hr options nodes).ends hm
  obtain ⟨hclosed, hdone⟩ := Action.Refines.ends (couples_tell fun _ _ => hr.endOfFile) hended
  exact ⟨by rw [hresult, hresult', hflow, hclosed], hstate ▸ hstate' ▸ hdone⟩

end Machine

end Photoplot
