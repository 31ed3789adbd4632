import Photoplot.Proofs.Simulation

/-!
# Nodes with a Body

A node with a body is a frame around the body: what is done before the body, and the callback that
the receiver gets after it. Blocks and step-and-repeats differ in their frames only, so a property
of runs has three parts: what commands do, what frames do, and what is done about an error.

## Main definitions

* `Frame`, `Frame.enclose`: a node without its body, and the node around a body.
* `Machine.enter`, `Machine.closing`: the two sides of a frame.
* `Machine.Invariant`: a property of machines that every part of a run keeps.

## Main results

* `Machine.visit_enclose`: a node with a body is its frame around the run of the body.
* `Machine.Invariant.keeps_visitAll`: nodes in order keep an invariant, by induction on the nodes.
* `Machine.isFatal_of_visitAll`: unless errors are raised, only fatal ones end a run.
-/

namespace Photoplot

variable {α σ : Type}

/-- A node with a body, apart from the body. -/
inductive Frame (α : Type) where
  | block (id : ApertureId)
  | stepRepeat (grid : Grid α)

/-- The node around a body. -/
def Frame.enclose (body : List (Node α)) : Frame α → Node α
  | block id => .block id body
  | stepRepeat grid => .stepRepeat grid body

namespace Machine

/-! ### Frames -/

/-- What is done before the body of a node. -/
def enter (r : Receiver α σ) (body : List (Node α)) : Frame α → Action (Machine α σ) Unit
  | .block id => do
    modifyState (GraphicsState.defineBlock ⟨id, body⟩)
    reselect id
    tell (r.beginBlock · ⟨id, body⟩)
  | .stepRepeat grid => tell (r.beginStepRepeat · ⟨grid, body⟩)

/-- The callback at the end of a node with a body. -/
def closing (r : Receiver α σ) (body : List (Node α)) :
    Frame α → GraphicsState α → Action σ Unit
  | .block id => (r.endBlock · ⟨id, body⟩)
  | .stepRepeat grid => (r.endStepRepeat · ⟨grid, body⟩)

variable [Scalar α]

/-- **A node with a body** is its frame around the run of the body. -/
theorem visit_enclose (r : Receiver α σ) (options : Options) (frame : Frame α)
    (body : List (Node α)) :
    visit r options (frame.enclose body) = (do
      enter r body frame
      enclosed (visitAll r options body) (closing r body frame)) := by
  cases frame with
  | block id =>
      rw [Frame.enclose, visit, enter]
      simp only [bind_assoc]
      rfl
  | stepRepeat grid =>
      rw [Frame.enclose, visit, enter]
      rfl

omit [Scalar α] in
/-- **A body between its callbacks.** The current point is put back, the closing callback decides
what is left, and the error of the body wins over its error. -/
theorem enclosed_eq (body : Action (Machine α σ) Flow) (closing : GraphicsState α → Action σ Unit)
    (m : Machine α σ) :
    let restored := { (body m).state.state with position := m.state.position }
    let closed := tell closing { (body m).state with state := restored }
    (enclosed body closing m).state = closed.state ∧
      (enclosed body closing m).result =
        (body m).result.bind fun flow => closed.result.map fun _ => flow := by
  intro restored closed
  have hend : ∀ (flow : Except Error Flow) (result : Except Error Unit) (s : Machine α σ),
      let last := (do
        let flow ← Action.ofExcept flow
        Action.ofExcept result
        pure flow : Action (Machine α σ) Flow) s
      last.state = s ∧ last.result = flow.bind fun flow => result.map fun _ => flow := by
    rintro (_ | _) (_ | _) s <;> exact ⟨rfl, rfl⟩
  have hlast := hend (body m).result closed.result closed.state
  obtain ⟨hresult, hstate⟩ := Action.bind_eq_of_ok (a := (body : Action _ _).attempt) (s := m)
    (f := fun flow => do
      modifyState fun s => { s with position := m.state.position }
      let result ← (tell closing).attempt
      let flow ← Action.ofExcept flow
      Action.ofExcept result
      pure flow) rfl
  obtain ⟨hresult', hstate'⟩ := Action.bind_eq_of_ok (a := (tell closing).attempt)
    (s := { (body m).state with state := restored })
    (f := fun result => do
      let flow ← Action.ofExcept (body m).result
      Action.ofExcept result
      pure flow) rfl
  exact ⟨hstate.trans (hstate'.trans hlast.1), hresult.trans (hresult'.trans hlast.2)⟩

/-! ### Runs -/

/-- What follows a node whose visit gave `result`. -/
def proceed (r : Receiver α σ) (options : Options) (node : Node α) (rest : List (Node α)) :
    Except Error Flow → Action (Machine α σ) Flow
  | .ok .continue => visitAll r options rest
  | .ok .halt => pure .halt
  | .error e => do
    skip options node e
    visitAll r options rest

/-- Nodes in order are the first one and then, depending on how it ended, the others. -/
theorem visitAll_cons (r : Receiver α σ) (options : Options) (node : Node α)
    (rest : List (Node α)) (m : Machine α σ) :
    let first := visit r options node m
    let others := proceed r options node rest first.result first.state
    (visitAll r options (node :: rest) m).result = others.result ∧
      (visitAll r options (node :: rest) m).state = others.state := by
  have hproceed : visitAll r options (node :: rest) =
      (visit r options node).attempt >>= proceed r options node rest := by
    rw [visitAll]
    congr
  rw [hproceed]
  exact Action.bind_eq_of_ok rfl

/-- Nodes that let the run go on are over when the nodes after them begin. -/
theorem visitAll_append {r : Receiver α σ} {options : Options} {before : List (Node α)}
    {m : Machine α σ} (h : (visitAll r options before m).result = .ok .continue)
    (after : List (Node α)) :
    (visitAll r options (before ++ after) m).result =
        (visitAll r options after (visitAll r options before m).state).result ∧
      (visitAll r options (before ++ after) m).state =
        (visitAll r options after (visitAll r options before m).state).state := by
  induction before generalizing m with
  | nil =>
      rw [visitAll]
      exact ⟨rfl, rfl⟩
  | cons node rest ih =>
      obtain ⟨hresult, hstate⟩ := visitAll_cons r options node rest m
      obtain ⟨hresult', hstate'⟩ := visitAll_cons r options node (rest ++ after) m
      rw [hresult] at h
      rw [List.cons_append, hresult', hstate', hstate]
      generalize (visit r options node m).state = m' at h
      generalize (visit r options node m).result = result at h
      rcases result with e | flow | flow
      · obtain ⟨_, hskip, hrest⟩ := Action.exists_of_bind_eq_ok h
        obtain ⟨-, hs⟩ := Action.bind_eq_of_ok (f := fun _ => visitAll r options rest) hskip
        obtain ⟨hr', hs'⟩ :=
          Action.bind_eq_of_ok (f := fun _ => visitAll r options (rest ++ after)) hskip
        rw [proceed, proceed, hr', hs', hs]
        exact ih hrest
      · exact ih h
      · cases h

/-- **A whole run** tells the receiver of its end, whose error is overruled by that of the run. -/
theorem run_eq (r : Receiver α σ) (options : Options) (nodes : List (Node α))
    (m : Machine α σ) :
    let ended := visitAll r options nodes m
    let closed := tell r.endOfFile ended.state
    (run r options nodes m).state = closed.state ∧
      (run r options nodes m).result = ended.result.bind fun _ => closed.result := by
  intro ended closed
  have hend : ∀ (flow : Except Error Flow) (result : Except Error Unit) (s : Machine α σ),
      let last := (do
        let _ ← Action.ofExcept flow
        Action.ofExcept result : Action (Machine α σ) Unit) s
      last.state = s ∧ last.result = flow.bind fun _ => result := by
    rintro (_ | _) (_ | _) s <;> exact ⟨rfl, rfl⟩
  have hlast := hend ended.result closed.result closed.state
  obtain ⟨hresult, hstate⟩ := Action.bind_eq_of_ok (s := m)
    (a := (visitAll r options nodes).attempt)
    (f := fun flow => do
      let result ← (tell r.endOfFile).attempt
      let _ ← Action.ofExcept flow
      Action.ofExcept result) rfl
  obtain ⟨hresult', hstate'⟩ := Action.bind_eq_of_ok (s := ended.state)
    (a := (tell r.endOfFile).attempt)
    (f := fun result => do
      let _ ← Action.ofExcept ended.result
      Action.ofExcept result) rfl
  exact ⟨hstate.trans (hstate'.trans hlast.1), hresult.trans (hresult'.trans hlast.2)⟩

omit [Scalar α] in
/-- Unless errors are raised, a node is skipped except for a fatal error. -/
theorem isFatal_of_skip {options : Options} (hmode : options.errorMode ≠ .raise) {node : Node α}
    {e e' : Error} {m : Machine α σ} (h : (skip options node e m).result = .error e') :
    e'.isFatal := by
  rw [skip] at h
  by_cases hfatal : e.isFatal
  · rw [if_pos hfatal] at h
    obtain rfl : e = e' := Except.error.inj h
    exact hfatal
  · rw [if_neg hfatal] at h
    cases herror : options.errorMode with
    | raise => exact absurd herror hmode
    | ignore | warn =>
        rw [herror] at h
        cases h

/-- Unless errors are raised, only fatal ones end a run. -/
theorem isFatal_of_visitAll {r : Receiver α σ} {options : Options} {nodes : List (Node α)}
    (hmode : options.errorMode ≠ .raise) {m : Machine α σ} {e : Error}
    (h : (visitAll r options nodes m).result = .error e) : e.isFatal := by
  induction nodes generalizing m with
  | nil =>
      rw [visitAll] at h
      cases h
  | cons node rest ih =>
      rw [(visitAll_cons r options node rest m).1] at h
      cases hfirst : (visit r options node m).result with
      | ok flow =>
          rw [hfirst] at h
          cases flow with
          | «continue» => exact ih h
          | halt => cases h
      | error e' =>
          rw [hfirst, proceed] at h
          cases hskip : (skip options node e' (visit r options node m).state).result with
          | ok _ =>
              rw [(Action.bind_eq_of_ok hskip).1] at h
              exact ih h
          | error e'' =>
              rw [(Action.bind_eq_of_error hskip).1] at h
              obtain rfl : e'' = e := Except.error.inj h
              exact isFatal_of_skip hmode hskip

/-! ### Operations -/

section Operations

variable {r : Receiver α σ} {P : Machine α σ → Prop} {c : Coordinates}

/-- A draw command keeps what loading, the callback of every route and committing keep. -/
theorem keeps_draw (hload : Action.Keeps P (onState (GraphicsState.load c)))
    (hsend : ∀ route : Route, Action.Keeps P (tell fun s => route.send r s s.segment))
    (hcommit : Action.Keeps P (modifyState GraphicsState.commit)) :
    Action.Keeps P (draw r c) := by
  have hlast : Action.Keeps P (do
      let route ← Action.gets (fun m : Machine α σ => m.route)
      tell fun s => route.send r s s.segment
      modifyState GraphicsState.commit) :=
    Action.Keeps.bind (Action.Keeps.gets _) fun route =>
      Action.Keeps.bind (hsend route) fun _ => hcommit
  refine Action.Keeps.bind hload fun _ => ?_
  refine Action.Keeps.bind (Action.Keeps.gets _) fun s => ?_
  dsimp only
  split
  · exact hlast
  · exact Action.Keeps.bind (Action.Keeps.ofExcept _) fun _ => hlast

/-- A move keeps what loading, flushing a region and committing keep. -/
theorem keeps_move (hload : Action.Keeps P (onState (GraphicsState.load c)))
    (hflush : Action.Keeps P (tell r.flushRegion))
    (hcommit : Action.Keeps P (modifyState GraphicsState.commit)) :
    Action.Keeps P (move r c) := by
  refine Action.Keeps.bind hload fun _ => ?_
  refine Action.Keeps.bind (Action.Keeps.gets _) fun inRegion => ?_
  dsimp only
  split
  · exact Action.Keeps.bind hflush fun _ => hcommit
  · exact hcommit

/-- A flash keeps what loading, the callback and committing keep. -/
theorem keeps_flash (hload : Action.Keeps P (onState (GraphicsState.load c)))
    (hflash : ∀ id target, Action.Keeps P (tell fun s => r.flash s id target s.target))
    (hcommit : Action.Keeps P (modifyState GraphicsState.commit)) :
    Action.Keeps P (flash r c) := by
  refine Action.Keeps.bind hload fun _ => ?_
  refine Action.Keeps.bind (Action.Keeps.gets _) fun s => ?_
  split
  · exact Action.Keeps.warn _
  refine Action.Keeps.bind (Action.Keeps.ofExcept _) fun resolved => ?_
  refine Action.Keeps.bind (Action.Keeps.gets _) fun target => ?_
  split
  · exact Action.Keeps.fail _
  · exact Action.Keeps.bind (hflash _ _) fun _ => hcommit

omit [Scalar α] in
/-- A selection changes the selected aperture and the flash target. -/
theorem keeps_select
    (h : ∀ (m : Machine α σ) selected flashTarget, P m →
      P { m with state := { m.state with selected }, flashTarget }) (id : ApertureId) :
    Action.Keeps P (select id) := by
  refine Action.Keeps.bind (Action.Keeps.modify fun m hm => h m _ _ hm) fun _ => ?_
  refine Action.Keeps.bind (Action.Keeps.gets _) fun found => ?_
  split
  · refine Action.Keeps.bind (Action.Keeps.ofExcept _) fun target => ?_
    exact Action.Keeps.modify fun m hm => h m m.state.selected _ hm
  · exact Action.Keeps.pure _

omit [Scalar α] in
/-- To look the selected aperture up anew keeps what selecting it keeps. -/
theorem keeps_reselect_of_select {id : ApertureId} (h : Action.Keeps P (select id)) :
    Action.Keeps P (reselect id) := by
  refine Action.Keeps.bind (Action.Keeps.gets _) fun selected => ?_
  split
  · exact h
  · exact Action.Keeps.pure _

end Operations

/-! ### Invariants -/

/-- A property of machines that commands of a kind, frames and skipped nodes keep. -/
structure Invariant (r : Receiver α σ) (options : Options) (admits : Command α → Prop)
    (P : Machine α σ → Prop) : Prop where
  perform (c : Command α) : admits c → Action.Keeps P (perform r c)
  skip (node : Node α) (e : Error) : Action.Keeps P (skip options node e)
  enter (frame : Frame α) (body : List (Node α)) : Action.Keeps P (enter r body frame)
  leave (frame : Frame α) (body : List (Node α)) (position : Point α) (m : Machine α σ) :
    P m → P (tell (closing r body frame) { m with state := { m.state with position } }).state

variable {r : Receiver α σ} {options : Options} {admits : Command α → Prop}
  {P : Machine α σ → Prop}

/-- Two invariants hold together. -/
theorem Invariant.and {Q : Machine α σ → Prop} (h : Invariant r options admits P)
    (h' : Invariant r options admits Q) : Invariant r options admits fun m => P m ∧ Q m where
  perform c hc m hm := ⟨h.perform c hc m hm.1, h'.perform c hc m hm.2⟩
  skip node e m hm := ⟨h.skip node e m hm.1, h'.skip node e m hm.2⟩
  enter frame body m hm := ⟨h.enter frame body m hm.1, h'.enter frame body m hm.2⟩
  leave frame body position m hm :=
    ⟨h.leave frame body position m hm.1, h'.leave frame body position m hm.2⟩

/-- A body in a frame keeps an invariant if it does by itself. -/
theorem Invariant.keeps_enclosed (h : Invariant r options admits P) (frame : Frame α)
    {body : List (Node α)} (hbody : Action.Keeps P (visitAll r options body)) :
    Action.Keeps P (visit r options (frame.enclose body)) := by
  rw [visit_enclose]
  refine Action.Keeps.bind (h.enter frame body) fun _ m hm => ?_
  rw [(enclosed_eq _ _ _).1]
  exact h.leave frame body _ _ (hbody m hm)

mutual

/-- **One node** keeps an invariant. -/
theorem Invariant.keeps_visit (h : Invariant r options admits P) (node : Node α)
    (hnode : ∀ c ∈ node.commands, admits c) : Action.Keeps P (visit r options node) := by
  match node with
  | .command c =>
      rw [visit]
      refine Action.Keeps.bind (h.perform c (hnode c (by simp [Node.commands]))) fun _ => ?_
      exact Action.Keeps.pure _
  | .block id body =>
      exact h.keeps_enclosed (.block id)
        (h.keeps_visitAll body (by simpa [Node.commands] using hnode))
  | .stepRepeat grid body =>
      exact h.keeps_enclosed (.stepRepeat grid)
        (h.keeps_visitAll body (by simpa [Node.commands] using hnode))

/-- **Nodes in order** keep an invariant. -/
theorem Invariant.keeps_visitAll (h : Invariant r options admits P) (nodes : List (Node α))
    (hnodes : ∀ c ∈ Node.commandsOf nodes, admits c) :
    Action.Keeps P (visitAll r options nodes) := by
  match nodes with
  | [] =>
      rw [visitAll]
      exact Action.Keeps.pure _
  | node :: rest =>
      have hnode := h.keeps_visit node fun c hc => hnodes c (by simp [Node.commandsOf, hc])
      have hrest := h.keeps_visitAll rest fun c hc => hnodes c (by simp [Node.commandsOf, hc])
      intro m hm
      rw [(visitAll_cons r options node rest m).2]
      have hfirst := hnode m hm
      generalize (visit r options node m).state = m' at hfirst
      rcases (visit r options node m).result with e | flow | flow
      · exact Action.Keeps.bind (h.skip node e) (fun _ => hrest) m' hfirst
      · exact hrest m' hfirst
      · exact hfirst

end

/-- **A whole run** keeps an invariant that the end of the file keeps. -/
theorem Invariant.keeps_run (h : Invariant r options admits P)
    (hend : Action.Keeps P (tell r.endOfFile)) (nodes : List (Node α))
    (hnodes : ∀ c ∈ Node.commandsOf nodes, admits c) : Action.Keeps P (run r options nodes) := by
  refine Action.Keeps.bind (h.keeps_visitAll nodes hnodes).attempt fun result => ?_
  refine Action.Keeps.bind hend.attempt fun closed => ?_
  exact Action.Keeps.bind (Action.Keeps.ofExcept _) fun _ => Action.Keeps.ofExcept _

/-! ### Invariants of the receiver -/

section Receiver

variable {Q : σ → Prop}

omit [Scalar α] in
/-- To look the selected aperture up anew does not change the receiver. -/
theorem keeps_reselect (id : ApertureId) :
    Action.Keeps (fun m : Machine α σ => Q m.receiver) (reselect id) := fun _ hm =>
  receiver_of_refines (simulates_reselect id) hm

omit [Scalar α] in
/-- A change of the graphics state does not change the receiver. -/
theorem keeps_modifyState (f : GraphicsState α → GraphicsState α) :
    Action.Keeps (fun m : Machine α σ => Q m.receiver) (modifyState f) := fun _ hm => hm

omit [Scalar α] in
/-- An action on the graphics state does not change the receiver. -/
theorem keeps_onState {β : Type} (a : Action (GraphicsState α) β) :
    Action.Keeps (fun m : Machine α σ => Q m.receiver) (onState a) := fun _ hm => hm

omit [Scalar α] in
/-- To look the route up anew does not change the receiver. -/
theorem keeps_reroute : Action.Keeps (fun m : Machine α σ => Q m.receiver) reroute :=
  fun _ hm => hm

omit [Scalar α] in
/-- A callback changes the receiver only as it does by itself. -/
theorem keeps_tell {callback : GraphicsState α → Action σ Unit}
    (h : ∀ s, Action.Keeps Q (callback s)) :
    Action.Keeps (fun m : Machine α σ => Q m.receiver) (tell callback) := fun m hm =>
  h m.state m.receiver hm

/-- **What the callbacks keep is an invariant.** The definitions of apertures are limited to those
that the program may have; the other callbacks are given as those of a receiver that ignores
definitions. -/
theorem Invariant.of_keeps (h : Receiver.Keeps Q { r with apertureDefined := fun _ _ => pure () })
    (hdefine : ∀ s d, admits (.defineAperture d) → Action.Keeps Q (r.apertureDefined s d)) :
    Invariant r options admits fun m => Q m.receiver where
  perform c hc := by
    have hsend (s segment) : ∀ route : Route, Action.Keeps Q (route.send r s segment)
      | .drawLine => h.send s segment .drawLine
      | .drawArc direction quadrant => h.send s segment (.drawArc direction quadrant)
      | .regionLine => h.send s segment .regionLine
      | .regionArc direction quadrant => h.send s segment (.regionArc direction quadrant)
    cases c with
    | defineAperture d =>
        refine Action.Keeps.bind (keeps_onState _) fun _ => ?_
        exact Action.Keeps.bind (keeps_tell fun s => hdefine s d hc) fun _ => keeps_reselect d.id
    | selectAperture id => exact fun _ hm => receiver_of_refines (simulates_select id) hm
    | draw c =>
        exact keeps_draw (keeps_onState _) (fun route => keeps_tell fun s => hsend s _ route)
          (keeps_modifyState _)
    | move c => exact keeps_move (keeps_onState _) (keeps_tell h.flushRegion) (keeps_modifyState _)
    | flash c =>
        exact keeps_flash (keeps_onState _) (fun id target => keeps_tell fun s => h.flash s _ _ _)
          (keeps_modifyState _)
    | beginRegion =>
        refine Action.Keeps.bind (keeps_modifyState _) fun _ => ?_
        exact Action.Keeps.bind keeps_reroute fun _ => keeps_tell h.beginRegion
    | endRegion =>
        refine Action.Keeps.bind (keeps_tell h.endRegion).attempt fun result => ?_
        refine Action.Keeps.bind (keeps_modifyState _) fun _ => ?_
        exact Action.Keeps.bind keeps_reroute fun _ => Action.Keeps.ofExcept _
    | _ => exact fun _ hm => hm
  skip node e _ hm := receiver_of_refines (simulates_skip options node e) hm
  enter frame body := by
    cases frame with
    | block id =>
        refine Action.Keeps.bind (keeps_modifyState _) fun _ => ?_
        exact Action.Keeps.bind (keeps_reselect id) fun _ =>
          keeps_tell fun s => h.beginBlock s ⟨id, body⟩
    | stepRepeat grid => exact keeps_tell fun s => h.beginStepRepeat s ⟨grid, body⟩
  leave frame body position m hm := by
    cases frame with
    | block id => exact h.endBlock _ ⟨id, body⟩ _ hm
    | stepRepeat grid => exact h.endStepRepeat _ ⟨grid, body⟩ _ hm

end Receiver

end Machine

end Photoplot
