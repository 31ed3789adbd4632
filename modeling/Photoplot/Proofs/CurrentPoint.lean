import Photoplot.Proofs.Scope
import Photoplot.Proofs.Bodies

/-!
# The Current Point

Only operations move the current point, and only when they succeed: drawing, moving, and flashing
outside of a region. They move it to where their coordinates **land**. Everything else leaves it
alone: commands that are no operations, operations that fail on whatever account, and whole bodies,
which may move it while they are run but put it back however they end.

## Landing convention

A coordinate is the position on its axis, or in the incremental mode a step from the current point.
An axis without coordinate stays, which in the incremental mode is a step of zero. The offsets of an
arc centre are read, so that they can fail, but do not matter for where the operation lands.

## Main definitions

* `AxisLands`, `GraphicsState.Lands`: where an operation ends.
* `Node.operation?`: the coordinates of a node that moves the current point.

## Main results

* `GraphicsState.ensures_load`: coordinates that have been read are where the operation lands.
* `Machine.position_visit`: one node, with any body.
* `Machine.position_visitAll`: nodes in order end where the operation of one of them landed.
-/

namespace Photoplot

variable {α σ : Type}

/-! ### Landing -/

section Landing

variable [Scalar α]

/-- Where an operation that begins at `start` ends on one axis. -/
inductive AxisLands (format : Option CoordinateFormat) (axis : Axis) (start : α) :
    Option String → α → Prop
  | position {f : CoordinateFormat} {raw : String} {v : α} (hformat : format = some f)
      (hmode : f.mode = .absolute) (h : f.unpack axis raw = .ok v) :
      AxisLands format axis start (some raw) v
  | step {f : CoordinateFormat} {raw : String} {v : α} (hformat : format = some f)
      (hmode : f.mode = .incremental) (h : f.unpack axis raw = .ok v) :
      AxisLands format axis start (some raw) (start + v)
  | stays (h : ∀ f, format = some f → f.mode = .absolute) : AxisLands format axis start none start
  | noStep {f : CoordinateFormat} (hformat : format = some f) (hmode : f.mode = .incremental) :
      AxisLands format axis start none (start + 0)

/-- An axis lands in one place only. -/
theorem AxisLands.unique {format : Option CoordinateFormat} {axis : Axis} {start v w : α}
    {raw : Option String} (hv : AxisLands format axis start raw v)
    (hw : AxisLands format axis start raw w) : v = w := by
  cases hv with
  | position hformat hmode hread =>
      cases hw with
      | position hformat' hmode' hread' =>
          obtain rfl := Option.some.inj (hformat.symm.trans hformat')
          exact Except.ok.inj (hread.symm.trans hread')
      | step hformat' hmode' hread' =>
          obtain rfl := Option.some.inj (hformat.symm.trans hformat')
          cases hmode.symm.trans hmode'
  | step hformat hmode hread =>
      cases hw with
      | position hformat' hmode' hread' =>
          obtain rfl := Option.some.inj (hformat.symm.trans hformat')
          cases hmode.symm.trans hmode'
      | step hformat' hmode' hread' =>
          obtain rfl := Option.some.inj (hformat.symm.trans hformat')
          rw [Except.ok.inj (hread.symm.trans hread')]
  | stays habsolute =>
      cases hw with
      | stays => rfl
      | noStep hformat' hmode' => cases (habsolute _ hformat').symm.trans hmode'
  | noStep hformat hmode =>
      cases hw with
      | stays habsolute => cases (habsolute _ hformat).symm.trans hmode
      | noStep => rfl

namespace GraphicsState

/-- The point at which an operation lands with the format and from the current point of a state. -/
structure Lands (s : GraphicsState α) (c : Coordinates) (p : Point α) : Prop where
  x : AxisLands s.format .x s.position.x c.x p.x
  y : AxisLands s.format .y s.position.y c.y p.y

/-- The target coordinate by coordinate: what was given is the position or added to it, and what was
not given stays. -/
theorem target_eq (s : GraphicsState α) :
    s.target =
      ⟨if s.isIncremental then s.position.x + s.pending.x.getD 0 else s.pending.x.getD s.position.x,
        if s.isIncremental then s.position.y + s.pending.y.getD 0
        else s.pending.y.getD s.position.y⟩ := by
  rw [target]
  split <;> rfl

/-- A coordinate that has been read is where the axis lands. -/
theorem axisLands_of_unpackAxis {f : CoordinateFormat} {axis : Axis} {raw : Option String}
    {value : Option α} (h : unpackAxis f axis raw = .ok value) (start : α) :
    AxisLands (some f) axis start raw
      (if f.mode == .incremental then start + value.getD 0 else value.getD start) := by
  cases raw with
  | none =>
      obtain rfl := Except.ok.inj h
      cases hmode : f.mode with
      | absolute => exact .stays fun _ hf => Option.some.inj hf ▸ hmode
      | incremental => exact .noStep rfl hmode
  | some raw =>
      rw [unpackAxis] at h
      cases hread : (f.unpack axis raw : Except CoordinateError α) with
      | error e =>
          rw [hread] at h
          cases h
      | ok v =>
          rw [hread] at h
          obtain rfl := Except.ok.inj h
          cases hmode : f.mode with
          | absolute => exact .position rfl hmode hread
          | incremental => exact .step rfl hmode hread

/-- Coordinates are read axis by axis. -/
theorem unpackAxis_of_unpackAll {f : CoordinateFormat} {c : Coordinates} {p : Pending α}
    (h : unpackAll f c = .ok p) :
    unpackAxis f .x c.x = .ok p.x ∧ unpackAxis f .y c.y = .ok p.y := by
  rw [unpackAll] at h
  cases hx : (unpackAxis f .x c.x : Except CoordinateError (Option α)) with
  | error e => simp [hx, bind, Except.bind] at h
  | ok x =>
  cases hy : (unpackAxis f .y c.y : Except CoordinateError (Option α)) with
  | error e => simp [hx, hy, bind, Except.bind] at h
  | ok y =>
  cases hi : (unpackAxis f .i c.i : Except CoordinateError (Option α)) with
  | error e => simp [hx, hy, hi, bind, Except.bind] at h
  | ok i =>
  cases hj : (unpackAxis f .j c.j : Except CoordinateError (Option α)) with
  | error e => simp [hx, hy, hi, hj, bind, Except.bind] at h
  | ok j =>
      rw [hx, hy, hi, hj] at h
      obtain rfl := Except.ok.inj h
      exact ⟨rfl, rfl⟩

/-- The target of coordinates that have been read is where they land. -/
theorem lands_target {f : CoordinateFormat} {c : Coordinates} {s : GraphicsState α}
    {pending : Pending α} (hformat : s.format = some f) (h : unpackAll f c = .ok pending)
    (formatInUse : Bool) : s.Lands c (target { s with pending, formatInUse }) := by
  obtain ⟨hx, hy⟩ := unpackAxis_of_unpackAll h
  have hmode : isIncremental { s with pending, formatInUse } = (f.mode == .incremental) := by
    rw [isIncremental, hformat]
  rw [target_eq, hmode]
  constructor
  · rw [hformat]
    exact axisLands_of_unpackAxis hx _
  · rw [hformat]
    exact axisLands_of_unpackAxis hy _

/-- An axis without coordinate lands where nothing is pending. -/
theorem axisLands_none (s : GraphicsState α) (axis : Axis) (start : α) :
    AxisLands s.format axis start none (if s.isIncremental then start + 0 else start) := by
  rw [isIncremental]
  cases s.format with
  | none => exact .stays nofun
  | some f =>
      by_cases hmode : f.mode = .incremental
      · rw [if_pos (by simp [hmode])]
        exact .noStep rfl hmode
      · rw [if_neg (by simpa using hmode)]
        refine .stays fun _ hf => ?_
        cases hf
        cases hother : f.mode with
        | absolute => rfl
        | incremental => exact absurd hother hmode

/-- Without coordinates an operation lands where it starts. -/
theorem lands_target_of_isEmpty {c : Coordinates} (h : c.isEmpty) (s : GraphicsState α) :
    s.Lands c (target { s with pending := {} }) := by
  obtain ⟨hx, hy⟩ : c.x = none ∧ c.y = none := by
    simp only [Coordinates.isEmpty, Bool.and_eq_true, Option.isNone_iff_eq_none] at h
    exact ⟨h.1.1.1, h.1.1.2⟩
  rw [target_eq]
  constructor
  · rw [hx]
    exact axisLands_none s .x _
  · rw [hy]
    exact axisLands_none s .y _

/-- **Reading coordinates** does not move the current point, and leads to where they land. -/
theorem ensures_load (c : Coordinates) (s : GraphicsState α) :
    (load c).Ensures (· = s) (fun _ s' => s'.position = s.position ∧ s.Lands c s'.target)
      fun _ s' => s'.position = s.position := by
  refine Action.Ensures.bind (M := fun _ s' => s' = { s with pending := {} })
    (by rintro s' rfl; exact rfl) fun _ => ?_
  by_cases hempty : c.isEmpty
  · rw [if_pos hempty]
    rintro s' rfl
    exact ⟨rfl, lands_target_of_isEmpty hempty s⟩
  rw [if_neg hempty]
  refine Action.Ensures.get_bind ?_
  rintro s' rfl
  cases hformat : s.format with
  | none =>
      rintro s' rfl
      exact rfl
  | some f =>
      dsimp only
      cases hread : (unpackAll f c : Except CoordinateError (Pending α)) with
      | error e =>
          rintro s' rfl
          exact rfl
      | ok pending =>
          have hlands := lands_target hformat hread true
          rw [hformat] at hlands
          rintro s' rfl
          exact ⟨rfl, hlands⟩

end GraphicsState

end Landing

/-! ### Operations -/

/-- The coordinates of a command that moves the current point if it succeeds. -/
def Command.operation? (inRegion : Bool) : Command α → Option Coordinates
  | .draw c | .move c => some c
  | .flash c => if inRegion then none else some c
  | _ => none

/-- The coordinates of a node that moves the current point if it succeeds. No node with a body
does. -/
def Node.operation? (inRegion : Bool) : Node α → Option Coordinates
  | .command c => c.operation? inRegion
  | .block .. | .stepRepeat .. => none

namespace Machine

/-- Two machines have the same current point. -/
def Still (m m' : Machine α σ) : Prop := m'.state.position = m.state.position

/-! ### Commands that are no operations -/

section Still

variable {m : Machine α σ}

/-- What leaves the position of a state alone leaves the current point where it is. -/
theorem keeps_still_onState {β : Type} {a : Action (GraphicsState α) β}
    (h : ∀ p, a.Keeps fun s => s.position = p) : Action.Keeps (Still m) (onState a) :=
  fun m' hm => h m.state.position m'.state hm

/-- To look the selected aperture up anew leaves the current point where it is. -/
theorem keeps_still_reselect (id : ApertureId) : Action.Keeps (Still m) (reselect id) :=
  keeps_reselect_of_select (keeps_select (fun _ _ _ h => h) id)

/-- A callback leaves the current point where it is. -/
theorem keeps_still_tell (callback : GraphicsState α → Action σ Unit) :
    Action.Keeps (Still m) (tell callback) := fun _ h => h

end Still

variable [Scalar α]

/-- What becomes of the current point when a node with these coordinates, if any, succeeds. -/
def Arrives (m m' : Machine α σ) : Option Coordinates → Prop
  | some c => m.state.Lands c m'.state.position
  | none => Still m m'

/-- An operation whose coordinates have been read, before it is done. -/
structure Poised (m : Machine α σ) (c : Coordinates) (m' : Machine α σ) : Prop where
  still : Still m m'
  lands : m.state.Lands c m'.state.target
  inRegion : m'.state.inRegion = m.state.inRegion

section Operations

variable {m : Machine α σ} {c : Coordinates}

/-- When coordinates have been read, the operation lands where they say. Otherwise the current point
is where it was. -/
theorem ensures_poised_load (c : Coordinates) (m : Machine α σ) :
    Action.Ensures (· = m) (onState (GraphicsState.load c)) (fun _ => Poised m c)
      fun _ => Still m := by
  rintro m' rfl
  have hload := GraphicsState.ensures_load c m'.state m'.state rfl
  have hregion : (GraphicsState.load c m'.state).state.inRegion = m'.state.inRegion :=
    GraphicsState.keeps_load (P := fun s => s.inRegion = m'.state.inRegion) (fun _ _ _ h => h) c
      m'.state rfl
  have hresult : (onState (GraphicsState.load c) m').result =
      (GraphicsState.load c m'.state).result := rfl
  rw [hresult]
  cases hload' : (GraphicsState.load c m'.state).result with
  | error e =>
      rw [hload'] at hload
      exact hload
  | ok _ =>
      rw [hload'] at hload
      exact ⟨hload.1, hload.2, hregion⟩

/-- What comes between reading the coordinates and moving there changes neither. -/
theorem ensures_poised {β : Type} {a : Action (Machine α σ) β} (h : a.Keeps (Poised m c)) :
    a.Ensures (Poised m c) (fun _ => Poised m c) fun _ => Still m :=
  h.ensures.weaken (fun _ _ h => h) fun _ _ h => h.still

/-- A callback leaves a pending operation as it is. -/
theorem keeps_poised_tell (callback : GraphicsState α → Action σ Unit) :
    Action.Keeps (Poised m c) (tell callback) := fun _ h => ⟨h.still, h.lands, h.inRegion⟩

/-- A pending operation that is done moves the current point to where it lands. -/
theorem ensures_commit :
    Action.Ensures (Poised m c) (modifyState GraphicsState.commit)
      (fun _ m' => Arrives m m' (some c)) fun _ => Still m := fun _ h => h.lands

/-- A draw command arrives, or the current point is where it was. -/
theorem ensures_arrives_draw (r : Receiver α σ) (c : Coordinates) (m : Machine α σ) :
    (draw r c).Ensures (· = m) (fun _ m' => Arrives m m' (some c)) fun _ => Still m := by
  have hlast : Action.Ensures (Poised m c) (do
      let route ← Action.gets (fun m : Machine α σ => m.route)
      tell fun s => route.send r s s.segment
      modifyState GraphicsState.commit) (fun _ m' => Arrives m m' (some c)) fun _ => Still m :=
    Action.Ensures.bind (ensures_poised (Action.Keeps.gets _)) fun route =>
      Action.Ensures.bind (ensures_poised (keeps_poised_tell _)) fun _ => ensures_commit
  refine Action.Ensures.bind (ensures_poised_load c m) fun _ => ?_
  refine Action.Ensures.bind (ensures_poised (Action.Keeps.gets _)) fun s => ?_
  dsimp only
  split
  · exact hlast
  · exact Action.Ensures.bind (ensures_poised (Action.Keeps.ofExcept _)) fun _ => hlast

/-- A move arrives, or the current point is where it was. -/
theorem ensures_arrives_move (r : Receiver α σ) (c : Coordinates) (m : Machine α σ) :
    (move r c).Ensures (· = m) (fun _ m' => Arrives m m' (some c)) fun _ => Still m := by
  refine Action.Ensures.bind (ensures_poised_load c m) fun _ => ?_
  refine Action.Ensures.bind (ensures_poised (Action.Keeps.gets _)) fun inRegion => ?_
  dsimp only
  split
  · exact Action.Ensures.bind (ensures_poised (keeps_poised_tell _)) fun _ => ensures_commit
  · exact ensures_commit

/-- Inside of a region a flash succeeds without an effect. -/
theorem ensures_arrives_flash (r : Receiver α σ) (c : Coordinates) (m : Machine α σ) :
    (flash r c).Ensures (· = m)
      (fun _ m' => Arrives m m' ((Command.flash (α := α) c).operation? m.state.inRegion))
      fun _ => Still m := by
  refine Action.Ensures.bind (ensures_poised_load c m) fun _ => ?_
  refine Action.Ensures.bind
    (M := fun s m' => s.inRegion = m.state.inRegion ∧ Poised m c m')
    (fun m' h => ⟨h.inRegion, h⟩) fun s => Action.Ensures.of_and fun hregion => ?_
  rw [Command.operation?, ← hregion]
  by_cases hinside : s.inRegion
  · rw [if_pos hinside, if_pos hinside]
    exact fun m' h => h.still
  rw [if_neg hinside, if_neg hinside]
  refine Action.Ensures.bind (ensures_poised (Action.Keeps.ofExcept _)) fun resolved => ?_
  refine Action.Ensures.bind (ensures_poised (Action.Keeps.gets _)) fun target => ?_
  cases target with
  | none => exact fun m' h => h.still
  | some target =>
      exact Action.Ensures.bind (ensures_poised (keeps_poised_tell _)) fun _ => ensures_commit

end Operations

/-! ### Nodes -/

/-- **One command** arrives if it succeeds, and otherwise leaves the current point alone. -/
theorem ensures_arrives_perform (r : Receiver α σ) (c : Command α) (m : Machine α σ) :
    (perform r c).Ensures (· = m)
      (fun _ m' => Arrives m m' (c.operation? m.state.inRegion)) fun _ => Still m := by
  -- A command that is no operation keeps the current point, whether or not it succeeds.
  have hstill {a : Action (Machine α σ) Unit} (h : a.Keeps (Still m)) :
      a.Ensures (· = m) (fun _ m' => Arrives m m' none) fun _ => Still m :=
    h.ensures.strengthen (by rintro m' rfl; exact rfl)
  cases c with
  | draw c => exact ensures_arrives_draw r c m
  | move c => exact ensures_arrives_move r c m
  | flash c => exact ensures_arrives_flash r c m
  | format f =>
      exact hstill (keeps_still_onState fun _ => GraphicsState.keeps_setFormat fun _ h => h)
  | defineAperture d =>
      refine hstill (Action.Keeps.bind (keeps_still_onState fun _ =>
        GraphicsState.keeps_defineAperture fun _ _ h => h) fun _ => ?_)
      exact Action.Keeps.bind (keeps_still_tell _) fun _ => keeps_still_reselect d.id
  | selectAperture id => exact hstill (keeps_select (fun _ _ _ h => h) id)
  | beginRegion | endRegion | unit _ | legacyUnit _ | defineMacro _ | plotMode _ | quadrant _
  | polarity _ | mirroring _ | rotation _ | scale _ | «attribute» _ _ | deleteAttribute _
  | comment _ | stop | optionalStop | endOfFile => exact hstill fun _ h => h

/-- **A node with a body** puts the current point back, however the body ends. -/
theorem keeps_still_visit_enclose (r : Receiver α σ) (options : Options) (frame : Frame α)
    (body : List (Node α)) (m : Machine α σ) :
    Action.Keeps (Still m) (visit r options (frame.enclose body)) := by
  have henter : Action.Keeps (Still m) (enter r body frame) := by
    cases frame with
    | block id =>
        refine Action.Keeps.bind (fun _ h => h) fun _ => ?_
        exact Action.Keeps.bind (keeps_still_reselect id) fun _ => keeps_still_tell _
    | stepRepeat grid => exact keeps_still_tell _
  rw [visit_enclose]
  refine Action.Keeps.bind henter fun _ m' h => ?_
  rw [(enclosed_eq _ _ _).1]
  exact h

/-- One node, by its outcome. -/
theorem ensures_arrives_visit (r : Receiver α σ) (options : Options) (node : Node α)
    (m : Machine α σ) :
    (visit r options node).Ensures (· = m)
      (fun _ m' => Arrives m m' (node.operation? m.state.inRegion)) fun _ => Still m := by
  have hbody (frame : Frame α) (body : List (Node α)) :
      (visit r options (frame.enclose body)).Ensures (· = m) (fun _ m' => Arrives m m' none)
        fun _ => Still m :=
    (keeps_still_visit_enclose r options frame body m).ensures.strengthen
      (by rintro m' rfl; exact rfl)
  cases node with
  | command c =>
      rw [visit]
      exact Action.Ensures.bind (ensures_arrives_perform r c m) fun _ m' h => h
  | block id body => exact hbody (.block id) body
  | stepRepeat grid body => exact hbody (.stepRepeat grid) body

/-- **The current point** after a node: where the node lands if it is an operation that succeeded,
and otherwise where it was. -/
theorem position_visit (r : Receiver α σ) (options : Options) (node : Node α) (m : Machine α σ) :
    let visited := visit r options node m
    match node.operation? m.state.inRegion, visited.result with
    | some c, .ok _ => m.state.Lands c visited.state.state.position
    | _, _ => visited.state.state.position = m.state.position := by
  intro visited
  have hvisit := ensures_arrives_visit r options node m m rfl
  cases hresult : (visit r options node m).result with
  | error e =>
      rw [hresult] at hvisit
      cases node.operation? m.state.inRegion <;> exact hvisit
  | ok flow =>
      rw [hresult] at hvisit
      cases hoperation : node.operation? m.state.inRegion with
      | none =>
          rw [hoperation] at hvisit
          exact hvisit
      | some c =>
          rw [hoperation] at hvisit
          exact hvisit

/-! ### Runs -/

/-- The current point is where the operation of one of the nodes landed, which is visited after the
nodes before it. -/
def Landed (r : Receiver α σ) (options : Options) (nodes : List (Node α)) (m ended : Machine α σ) :
    Prop :=
  ∃ before node after c, nodes = before ++ node :: after ∧
    let reached := (visitAll r options before m).state
    node.operation? reached.state.inRegion = some c ∧
      (visit r options node reached).result.isOk ∧ reached.state.Lands c ended.state.position

section Runs

variable {r : Receiver α σ} {options : Options} {m m' ended : Machine α σ} {node : Node α}
  {rest : List (Node α)}

omit [Scalar α] in
/-- To skip a node leaves the current point where it is. -/
theorem keeps_still_skip (options : Options) (node : Node α) (e : Error) :
    Action.Keeps (Still m) (skip options node e) := by
  intro m' h
  rw [skip]
  split
  · exact h
  · cases options.errorMode <;> exact h

/-- A node that did not fail is where the run has landed, unless it is no operation. -/
theorem still_or_landed {flow : Flow} (h : (visit r options node m).result = .ok flow)
    (hended : Still (visit r options node m).state ended) :
    Still m ended ∨ Landed r options (node :: rest) m ended := by
  have hvisit := ensures_arrives_visit r options node m m rfl
  rw [h] at hvisit
  cases hoperation : node.operation? m.state.inRegion with
  | none =>
      rw [hoperation] at hvisit
      exact .inl (hended.trans hvisit)
  | some c =>
      rw [hoperation] at hvisit
      refine .inr ⟨[], node, rest, c, rfl, ?_⟩
      have hreached : (visitAll r options [] m).state = m := by
        rw [visitAll]
        rfl
      rw [hreached]
      exact ⟨hoperation, by rw [h]; rfl, hended ▸ hvisit⟩

/-- A run that goes on after a node lands where the rest of it lands. -/
theorem Landed.cons (h : Landed r options rest m' ended)
    (hgoes : ∀ nodes, (visitAll r options (node :: nodes) m).state =
      (visitAll r options nodes m').state) : Landed r options (node :: rest) m ended := by
  obtain ⟨before, other, after, c, rfl, hreached⟩ := h
  exact ⟨node :: before, other, after, c, rfl, by rwa [hgoes before]⟩

end Runs

/-- **Nodes in order** leave the current point where the operation of one of them landed, or where
it was. -/
theorem position_visitAll (r : Receiver α σ) (options : Options) (nodes : List (Node α))
    (m : Machine α σ) :
    Still m (visitAll r options nodes m).state ∨
      Landed r options nodes m (visitAll r options nodes m).state := by
  induction nodes generalizing m with
  | nil =>
      rw [visitAll]
      exact .inl rfl
  | cons node rest ih =>
      have hcons (nodes : List (Node α)) := (visitAll_cons r options node nodes m).2
      cases hresult : (visit r options node m).result with
      | ok flow =>
          simp only [hresult] at hcons
          cases flow with
          | halt =>
              rw [hcons rest]
              exact still_or_landed hresult rfl
          | «continue» =>
              rw [hcons rest]
              rcases ih (visit r options node m).state with hstill | hlanded
              · exact still_or_landed hresult hstill
              · exact .inr (hlanded.cons hcons)
      | error e =>
          have hfailed : Still m (visit r options node m).state := by
            have hvisit := ensures_arrives_visit r options node m m rfl
            rwa [hresult] at hvisit
          have hskipped := keeps_still_skip options node e _ hfailed
          simp only [hresult, proceed] at hcons
          cases hskip : (skip options node e (visit r options node m).state).result with
          | error e' =>
              rw [hcons rest, (Action.bind_eq_of_error hskip).2]
              exact .inl hskipped
          | ok _ =>
              have hgoes (nodes : List (Node α)) := (hcons nodes).trans
                (Action.bind_eq_of_ok (f := fun _ => visitAll r options nodes) hskip).2
              rw [hgoes rest]
              rcases ih (skip options node e (visit r options node m).state).state with
                hstill | hlanded
              · exact .inl (hstill.trans hskipped)
              · exact .inr (hlanded.cons hgoes)

end Machine

end Photoplot
