import Photoplot.Receiver

/-!
# Running Programs

The machine carries out the nodes of a program in order. It keeps the graphics state up to
date and tells a receiver of everything that concerns geometry.

## Conventions

* **Derived state.** The flash target of the selected aperture and the route of draw commands
  are derived when a command changes what they depend on, and kept in between.
* **Bodies.** The body of a block or a step-and-repeat is run in place. The current point is put
  back afterwards, and the receiver is told of the end however the body ended.
* **Halting.** A stop ends the run of all enclosing bodies, without an error.
* **Errors.** In the mode `raise` an error ends the run. In the modes `ignore` and `warn` the
  failed node is skipped; `warn` also warns and records a diagnostic. Fatal errors end the run in
  every mode.

## Main definitions

* `Options`, `Diagnostic`, `Machine`.
* `Machine.visit`, `Machine.visitAll`: one node, and nodes in order.
* `Machine.run`: nodes in order, and then the end of the file.
-/

namespace Photoplot

/-- Whether the run goes on after a node. -/
inductive Flow where
  | continue
  | halt
deriving DecidableEq, Repr

/-- What is done about an error that is not fatal. -/
inductive ErrorMode where
  | raise
  | ignore
  | warn
deriving DecidableEq, Repr

/-- How programs are run. -/
structure Options where
  errorMode : ErrorMode := .raise
  /-- Whether an optional stop is passed over. -/
  ignoreOptionalStop : Bool := false
deriving DecidableEq, Repr

/-- A node that was skipped because of an error. -/
structure Diagnostic where
  code : String
  error : Error
deriving DecidableEq, Repr

/-- A machine over a receiver with states in `σ`. -/
structure Machine (α σ : Type) where
  state : GraphicsState α
  receiver : σ
  /-- The flash target of the selected aperture, if it has one. -/
  flashTarget : Option (FlashTarget α)
  /-- The route of draw commands. -/
  route : Route
  diagnostics : List Diagnostic

namespace Machine

variable {α σ : Type} [Scalar α]

/-- The machine before the first command. -/
def initial (receiver : σ) : Machine α σ where
  state := .initial
  receiver
  flashTarget := none
  route := .ofModes .linear .multi false
  diagnostics := []

/-! ### Parts of the machine -/

/-- Changes the graphics state. -/
def modifyState (f : GraphicsState α → GraphicsState α) : Action (Machine α σ) Unit :=
  Action.modify fun m => { m with state := f m.state }

/-- Acts on the graphics state. -/
def onState {β : Type} (a : Action (GraphicsState α) β) : Action (Machine α σ) β :=
  Action.focus (·.state) (fun m state => { m with state }) a

/-- Tells the receiver, which sees the graphics state as it is. -/
def tell (callback : GraphicsState α → Action σ Unit) : Action (Machine α σ) Unit := fun m =>
  match m with
  | { state, receiver, flashTarget, route, diagnostics } =>
    let step := callback state receiver
    ⟨step.result, { state, receiver := step.state, flashTarget, route, diagnostics },
      step.warnings⟩

/-- Derives the route of draw commands anew. -/
def reroute : Action (Machine α σ) Unit :=
  Action.modify fun m =>
    { m with route := .ofModes m.state.plotMode m.state.quadrant m.state.inRegion }

/-- Selects an aperture and derives its flash target. An id that is not defined can be
selected; an aperture without geometry cannot be flashed. -/
def select (id : ApertureId) : Action (Machine α σ) Unit := do
  Action.modify fun m =>
    { m with state := { m.state with selected := some id }, flashTarget := none }
  match ← Action.gets (·.state.resolve id) with
  | .ok resolved =>
    let flashTarget ← Action.ofExcept (FlashTarget.ofResolved resolved)
    Action.modify fun m => { m with flashTarget := some flashTarget }
  | .error _ => pure ()

/-- Selects an aperture again if it is the selected one, because its definition changed. -/
def reselect (id : ApertureId) : Action (Machine α σ) Unit := do
  if (← Action.gets (·.state.selected)) = some id then select id else pure ()

/-! ### Commands -/

/-- Draws to the target. Outside of regions an aperture must be selected and defined. -/
def draw (r : Receiver α σ) (c : Coordinates) : Action (Machine α σ) Unit := do
  onState (GraphicsState.load c)
  let s ← Action.gets (·.state)
  if s.inRegion then pure ()
  else
    let _ ← Action.ofExcept s.current
  let route ← Action.gets (·.route)
  tell fun s => route.send r s s.segment
  modifyState GraphicsState.commit

/-- Moves to the target, which ends the contour inside of a region. -/
def move (r : Receiver α σ) (c : Coordinates) : Action (Machine α σ) Unit := do
  onState (GraphicsState.load c)
  if ← Action.gets (·.state.inRegion) then tell r.flushRegion
  modifyState GraphicsState.commit

/-- Flashes the selected aperture at the target. Inside of a region nothing is flashed and the
current point stays. -/
def flash (r : Receiver α σ) (c : Coordinates) : Action (Machine α σ) Unit := do
  onState (GraphicsState.load c)
  let s ← Action.gets (·.state)
  if s.inRegion then Action.warn .flashInRegion
  else
    let resolved ← Action.ofExcept s.current
    match ← Action.gets (·.flashTarget) with
    | none => Action.fail (.apertureNotFound resolved.id)
    | some flashTarget =>
      tell fun s => r.flash s resolved.id flashTarget s.target
      modifyState GraphicsState.commit

/-- Defines an aperture and tells the receiver. -/
def defineAperture (r : Receiver α σ) (d : ApertureDefinition α) :
    Action (Machine α σ) Unit := do
  onState (GraphicsState.defineAperture d)
  tell (r.apertureDefined · d)
  reselect d.id

/-- Enters a region. -/
def beginRegion (r : Receiver α σ) : Action (Machine α σ) Unit := do
  modifyState fun s => { s with inRegion := true }
  reroute
  tell r.beginRegion

/-- Leaves the region, also when the receiver refuses its end. -/
def endRegion (r : Receiver α σ) : Action (Machine α σ) Unit := do
  let result ← (tell r.endRegion).attempt
  modifyState fun s => { s with inRegion := false }
  reroute
  Action.ofExcept result

/-- Carries out a command that does not stop the run. -/
def perform (r : Receiver α σ) : Command α → Action (Machine α σ) Unit
  | .format f => onState (GraphicsState.setFormat f)
  | .unit u => modifyState fun s => { s with unit := u }
  | .legacyUnit u => modifyState fun s => { s with unit := u }
  | .defineAperture d => defineAperture r d
  | .defineMacro m => modifyState (GraphicsState.defineMacro m)
  | .selectAperture id => select id
  | .draw c => draw r c
  | .move c => move r c
  | .flash c => flash r c
  | .plotMode mode => do
    modifyState fun s => { s with plotMode := mode }
    reroute
  | .quadrant q => do
    modifyState fun s => { s with quadrant := q }
    reroute
  | .beginRegion => beginRegion r
  | .endRegion => endRegion r
  | .polarity p => modifyState fun s => { s with transform := { s.transform with polarity := p } }
  | .mirroring m =>
    modifyState fun s => { s with transform := { s.transform with mirroring := m } }
  | .rotation degrees =>
    modifyState fun s => { s with transform := { s.transform with rotation := degrees } }
  | .scale factor =>
    modifyState fun s => { s with transform := { s.transform with scale := factor } }
  | .attribute kind a => modifyState (GraphicsState.setAttribute kind a)
  | .deleteAttribute name => modifyState (GraphicsState.deleteAttribute name)
  | .comment _ | .stop | .optionalStop | .endOfFile => pure ()

/-- Whether a command stops the run. -/
def stops (options : Options) : Command α → Flow
  | .stop | .endOfFile => .halt
  | .optionalStop => if options.ignoreOptionalStop then .continue else .halt
  | _ => .continue

/-! ### Nodes -/

/-- Ends the run with the error of a node, or skips the node. -/
def skip (options : Options) (node : Node α) (e : Error) : Action (Machine α σ) Unit :=
  if e.isFatal then Action.fail e
  else
    match options.errorMode with
    | .raise => Action.fail e
    | .ignore => pure ()
    | .warn => do
      Action.warn (.skipped node.code e)
      Action.modify fun m => { m with diagnostics := m.diagnostics ++ [⟨node.code, e⟩] }

/-- Runs a body between the two callbacks of its node. The error of the body wins over that of
the closing callback. -/
def enclosed (body : Action (Machine α σ) Flow)
    (closing : GraphicsState α → Action σ Unit) : Action (Machine α σ) Flow := do
  let position ← Action.gets (·.state.position)
  let flow ← body.attempt
  modifyState fun s => { s with position }
  let closed ← (tell closing).attempt
  let flow ← Action.ofExcept flow
  Action.ofExcept closed
  pure flow

mutual

/-- Carries out a node. A block is defined before its body is run. -/
def visit (r : Receiver α σ) (options : Options) : Node α → Action (Machine α σ) Flow
  | .command c => do
    perform r c
    pure (stops options c)
  | .block id body => do
    modifyState (GraphicsState.defineBlock ⟨id, body⟩)
    reselect id
    tell (r.beginBlock · ⟨id, body⟩)
    enclosed (visitAll r options body) (r.endBlock · ⟨id, body⟩)
  | .stepRepeat grid body => do
    tell (r.beginStepRepeat · ⟨grid, body⟩)
    enclosed (visitAll r options body) (r.endStepRepeat · ⟨grid, body⟩)

/-- Carries out nodes in order until one halts or an error ends the run. -/
def visitAll (r : Receiver α σ) (options : Options) : List (Node α) → Action (Machine α σ) Flow
  | [] => pure .continue
  | node :: rest => do
    match ← (visit r options node).attempt with
    | .ok .continue => visitAll r options rest
    | .ok .halt => pure .halt
    | .error e => do
      skip options node e
      visitAll r options rest

end

/-- Runs nodes and then tells the receiver that the file has ended. An error of the run wins
over that of this last callback. -/
def run (r : Receiver α σ) (options : Options) (nodes : List (Node α)) :
    Action (Machine α σ) Unit := do
  let result ← (visitAll r options nodes).attempt
  let closed ← (tell r.endOfFile).attempt
  let _ ← Action.ofExcept result
  Action.ofExcept closed

end Machine

end Photoplot
