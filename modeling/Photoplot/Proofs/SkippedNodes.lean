import Photoplot.Proofs.FailedCommands

/-!
# Nodes That Are Skipped

A node that fails is skipped when errors are ignored, and the run goes on. Whoever writes programs
expects that a skipped node might as well not be there. That is so as long as what it left behind
cannot be told apart from what was there before: the run without the node then goes on from a
machine that agrees with the one after it, and ends alike.

## Occurrence convention

A node may be written several times in a program, and only one of the occurrences is deleted. It is
given by the way that leads to it: past the nodes before it and into the bodies around it
(`Machine.Meets`). The bodies around it are then other bodies, but their frames are the same.

## Main definitions

* `Machine.Meets`: a run comes to an occurrence of a node.

## Main results

* `Machine.endsAlike_of_meets`: with and without a node that fails and leaves no trace, runs end
  alike.
* `result_compile_of_skipped`: the same for whole programs, with the exceptions.
* `leavesTrace_skipped`: the exceptions do leave a trace.
-/

namespace Photoplot

variable {α σ : Type} [Scalar α]

/-! ### Occurrences -/

/-- A run of nodes from a machine comes to an occurrence of `node`, which is visited by the machine
`there`. The last list are the nodes without this occurrence. -/
inductive Machine.Meets (r : Receiver α σ) (options : Options) (node : Node α)
    (there : Machine α σ) : Machine α σ → List (Node α) → List (Node α) → Prop
  | here {rest : List (Node α)} : Meets r options node there there (node :: rest) rest
  | later {m : Machine α σ} {first : Node α} {rest rest' : List (Node α)} :
      (visitAll r options [first] m).result = .ok .continue →
      Meets r options node there (visitAll r options [first] m).state rest rest' →
      Meets r options node there m (first :: rest) (first :: rest')
  | inside {m : Machine α σ} {frame : Frame α} {body body' rest : List (Node α)} :
      (enter r body frame m).result = .ok () →
      Meets r options node there (enter r body frame m).state body body' →
      Meets r options node there m (frame.enclose body :: rest) (frame.enclose body' :: rest)

namespace Machine

variable {r : Receiver α σ} {options : Options} {node : Node α} {m there : Machine α σ}
  {nodes nodes' : List (Node α)}

/-- What a whole run keeps is kept until a run comes to an occurrence. -/
theorem Meets.keeps {P : Machine α σ → Prop} (hinvariant : Invariant r options (fun _ => True) P)
    (h : Meets r options node there m nodes nodes') (hm : P m) : P there := by
  induction h with
  | here => exact hm
  | later _ _ ih => exact ih (hinvariant.keeps_visitAll _ (fun _ _ => trivial) _ hm)
  | inside _ _ ih => exact ih (hinvariant.enter _ _ _ hm)

/-- The commands of an occurrence are commands of the program. -/
theorem Meets.mem_commandsOf (h : Meets r options node there m nodes nodes') {c : Command α}
    (hc : c ∈ node.commands) : c ∈ Node.commandsOf nodes := by
  induction h with
  | here => simp [Node.commandsOf, hc]
  | later _ _ ih => simp [Node.commandsOf, ih]
  | @inside _ frame _ _ _ _ _ ih => cases frame <;>
      simp [Frame.enclose, Node.commandsOf, Node.commands, ih]

omit [Scalar α] in
/-- When errors are ignored, skipping a node that failed does nothing more. -/
theorem skip_of_ignore (hmode : options.errorMode = .ignore) {e : Error} (hfatal : ¬ e.isFatal) :
    (skip options node e : Action (Machine α σ) Unit) = pure () := by
  rw [skip, if_neg hfatal, hmode]

/-- After a first node that does not end the run come the others. -/
theorem visitAll_cons_of_continue {first : Node α}
    (h : (visitAll r options [first] m).result = .ok .continue) (rest : List (Node α)) :
    let others := visitAll r options rest (visitAll r options [first] m).state
    (visitAll r options (first :: rest) m).result = others.result ∧
      (visitAll r options (first :: rest) m).state = others.state := by
  obtain ⟨honly, honly'⟩ := visitAll_cons r options first [] m
  obtain ⟨hresult, hstate⟩ := visitAll_cons r options first rest m
  rw [honly] at h
  rw [hresult, hstate, honly']
  cases hfirst : (visit r options first m).result with
  | error e =>
      -- the node was skipped
      rw [hfirst] at h
      simp only [proceed] at h ⊢
      cases hskip : (skip options first e (visit r options first m).state).result with
      | error e' =>
          rw [(Action.bind_eq_of_error hskip).1] at h
          cases h
      | ok _ =>
          rw [(Action.bind_eq_of_ok hskip).1, (Action.bind_eq_of_ok hskip).2,
            (Action.bind_eq_of_ok hskip).2, visitAll]
          exact ⟨rfl, rfl⟩
  | ok flow =>
      rw [hfirst] at h
      cases flow with
      | «continue» =>
          simp only [proceed]
          rw [visitAll]
          exact ⟨rfl, rfl⟩
      | halt => cases h

/-! ### Runs without a node -/

/-- **Runs without a node** that fails and leaves no trace end alike. The induction is on the way
to the node. -/
theorem endsAlike_of_meets (hr : r.Blind) (hmode : options.errorMode = .ignore)
    (hmeets : Meets r options node there m nodes nodes')
    (hformat : ∀ c ∈ Node.commandsOf nodes, ∀ f, c ≠ .format f) {e : Error}
    (hfails : (visit r options node there).result = .error e) (hfatal : ¬ e.isFatal)
    (htrace : there.Agree (visit r options node there).state) {m' : Machine α σ}
    (hm : m.Agree m') :
    EndsAlike (visitAll r options nodes m) (visitAll r options nodes' m') := by
  induction hmeets generalizing m' with
  | @here rest =>
      obtain ⟨hresult, hstate⟩ := visitAll_cons r options node rest there
      have hrest := (inStep_visitAll hr options rest fun c hc =>
        hformat c (by simp [Node.commandsOf, hc])).endsAlike (htrace.symm.trans hm)
      rw [hfails, proceed, skip_of_ignore hmode hfatal] at hresult hstate
      exact ⟨hresult.trans hrest.result, hstate ▸ hrest.state⟩
  | @later m first rest rest' hfirst _ ih =>
      have hstep := (inStep_visitAll hr options [first] fun c hc =>
        hformat c (by simp_all [Node.commandsOf])).endsAlike hm
      have hothers := ih (fun c hc => hformat c (by simp [Node.commandsOf, hc])) hstep.state
      obtain ⟨hresult, hstate⟩ := visitAll_cons_of_continue hfirst rest
      obtain ⟨hresult', hstate'⟩ := visitAll_cons_of_continue (hstep.result ▸ hfirst) rest'
      exact ⟨by rw [hresult, hresult', hothers.result], hstate ▸ hstate' ▸ hothers.state⟩
  | @inside m frame body body' rest hentered _ ih =>
      have hbody := ih (fun c hc => hformat c (by cases frame <;>
        simp [Frame.enclose, Node.commandsOf, Node.commands, hc]))
        ((inStep_enter hr body body' frame).endsAlike hm).state
      refine (EndsAlike.visit_enclose hr frame hm hbody).visitAll_cons ?_ ?_
      · cases frame <;> rfl
      · exact inStep_visitAll hr options rest fun c hc =>
          hformat c (by simp [Node.commandsOf, hc])

end Machine

/-! ### The composer -/

namespace Composer

/-- The width of a stroke does not depend on the bodies of blocks. -/
theorem strokeWidth_congr {s s' : GraphicsState α} (h : s.Agree s') (start stop : Point α) :
    (strokeWidth s start stop : Action σ (Option α)) = strokeWidth s' start stop := by
  have hfound (resolved : Resolved α) :
      (Action.ofExcept (.ok resolved) : Action σ (Resolved α)) = pure resolved := rfl
  unfold strokeWidth
  rw [h.transform]
  rcases Action.exists_of_map_eq h.current with ⟨e, he, he'⟩ | ⟨found, found', hok, hok', houtline⟩
  · rw [he, he']
  rw [hok, hok', hfound, hfound, pure_bind, pure_bind]
  rcases Resolved.eq_or_block_of_outline houtline with rfl | ⟨b, b', rfl, rfl, hid⟩
  · rfl
  · dsimp only
    rw [hid]

/-- Graphics states that agree stroke alike. -/
theorem stroke_congr {s s' : GraphicsState α} (h : s.Agree s') (segment : Segment α)
    (strokes : α → List (Geometry α)) : stroke s segment strokes = stroke s' segment strokes := by
  unfold stroke
  rw [strokeWidth_congr h, h.transform]

/-- Graphics states that agree flush the contour alike. -/
theorem flushContour_congr {s s' : GraphicsState α} (h : s.Agree s') :
    flushContour s = flushContour s' := by
  unfold flushContour
  rw [h.transform]

/-- **The composer** is blind. -/
theorem blind_receiver [Legible α] : (receiver : Receiver α (Composer α)).Blind where
  apertureDefined {s s'} d h := by
    show defineAperture s d = defineAperture s' d
    unfold defineAperture apertureShapes
    rw [h.macros]
  beginBlock _ _ _ _ := rfl
  endBlock _ _ _ _ := rfl
  beginStepRepeat _ _ _ _ := rfl
  endStepRepeat _ _ _ _ := rfl
  flash {s s'} id _ _ center h := by
    show flash s id center = flash s' id center
    unfold flash
    rw [h.transform]
  send segment route h := by
    cases route with
    | drawLine => exact stroke_congr h segment _
    | drawArc direction quadrant => exact stroke_congr h segment _
    | regionLine | regionArc => rfl
  beginRegion _ := rfl
  flushRegion h := flushContour_congr h
  endRegion {s s'} h := by
    show (do
      let result ← (flushContour s).attempt
      _) = _
    rw [flushContour_congr h]
    rfl
  endOfFile _ := rfl

end Composer

/-! ### Programs -/

open Machine

variable [Legible α] {options : Options}

/-- Programs whose runs end alike have the same result. -/
theorem result_compile_congr {program program' : List (Node α)}
    (h : EndsAlike (visitAll Composer.receiver options program (.initial .initial))
      (visitAll Composer.receiver options program' (.initial .initial))) :
    ((compile options program).run ()).result = ((compile options program').run ()).result := by
  have hrun := h.run Composer.blind_receiver
  have hcomposed : composed options program = composed options program' := hrun.state.receiver
  rw [result_compile, result_compile, hcomposed]
  unfold Action.run
  rw [hrun.result, hrun.state.diagnostics]

/-- **A skipped node leaves no trace.** A program gives the coordinate format once, in the
beginning, and errors are ignored. If some occurrence of a node fails, the result is what it is
without this occurrence, unless the error is fatal, the macro of an aperture has no value, or a
flash has built variants before it failed. -/
theorem result_compile_of_skipped (hmode : options.errorMode = .ignore) {f : CoordinateFormat}
    {nodes nodes' : List (Node α)} (hformat : ∀ c ∈ Node.commandsOf nodes, ∀ g, c ≠ .format g)
    {node : Node α} {there : Machine α (Composer α)}
    (hmeets : Meets Composer.receiver options node there (.initial .initial)
      (.command (.format f) :: nodes) nodes') {e : Error}
    (hfails : (visit Composer.receiver options node there).result = .error e)
    (hfatal : ¬ e.isFatal) (hexpression : ∀ x, e ≠ .expression x)
    (hbuilds : (visit Composer.receiver options node there).state.receiver.builds =
      there.receiver.builds) :
    ((compile options (.command (.format f) :: nodes)).run ()).result =
      ((compile options nodes').run ()).result := by
  have hsettled : there.Settled := hmeets.keeps (invariant_settled options) settled_initial
  generalize hprogram : Node.command (.format f) :: nodes = program at hmeets
  cases hmeets with
  | here =>
      -- the format is accepted in the beginning
      obtain ⟨rfl, rfl⟩ := List.cons.inj hprogram
      rw [visit] at hfails
      cases hfails
  | @inside _ frame =>
      obtain ⟨hnode, -⟩ := List.cons.inj hprogram
      cases frame <;> cases hnode
  | @later _ _ _ rest' hfirst hmeets =>
      obtain ⟨rfl, rfl⟩ := List.cons.inj hprogram
      have hfailed : ∀ c ∈ node.commands, ∀ g, c ≠ .format g := fun c hc =>
        hformat c (hmeets.mem_commandsOf hc)
      have htrace : there.Agree (visit Composer.receiver options node there).state := by
        rcases isolated_of_visit (by simp [hmode]) hsettled hfailed hfails with h | ⟨x, h⟩ | h | h
        · exact absurd h hfatal
        · exact absurd h (hexpression x)
        · exact absurd hbuilds h
        · exact h
      have hrest := endsAlike_of_meets Composer.blind_receiver hmode hmeets hformat hfails hfatal
        htrace (.refl _)
      obtain ⟨hresult, hstate⟩ := visitAll_cons_of_continue hfirst nodes
      obtain ⟨hresult', hstate'⟩ := visitAll_cons_of_continue hfirst rest'
      exact result_compile_congr
        ⟨by rw [hresult, hresult', hrest.result], hstate ▸ hstate' ▸ hrest.state⟩

/-! ### A program without a node -/

/-- A program that gives the coordinate format first. -/
def formatted (nodes : List (Node Float)) : List (Node Float) :=
  .command (.format ⟨.leading, .absolute, ⟨2, 4⟩, ⟨2, 4⟩⟩) :: nodes

/-- Draws a line of unit length to the right. -/
def unitDraw : Node Float := .command (.draw ⟨some "10000", none, none, none⟩)

/-- Flashes at the current point. -/
def flashHere : Node Float := .command (.flash ⟨none, none, none, none⟩)

/-- Defines a circle. -/
def circleAperture (id : ApertureId) (diameter : Float) : Node Float :=
  .command (.defineAperture ⟨id, .circle ⟨diameter, none⟩⟩)

/-- A block of nodes, while an aperture is selected that is not defined, and a flash. -/
def blockAround (nodes : List (Node Float)) : List (Node Float) :=
  .command (.selectAperture ⟨"D12"⟩) :: nodes ++
    [.command (.selectAperture ⟨"D10"⟩), flashHere]

/-- A circle, a block that flashes it, and a flash of the block. -/
def blockFlashed (body : List (Node Float)) : List (Node Float) :=
  formatted [circleAperture ⟨"D10"⟩ 1, .block ⟨"D11"⟩ (blockAround body),
    .command (.selectAperture ⟨"D11"⟩), flashHere]

/-- The machine that draws in the block. -/
def insideBlock : Machine Float (Composer Float) :=
  let run (nodes : List (Node Float)) (m : Machine Float (Composer Float)) :=
    (visitAll Composer.receiver { errorMode := .ignore } nodes m).state
  let before := run [circleAperture ⟨"D10"⟩ 1] (run (formatted []) (.initial .initial))
  run [.command (.selectAperture ⟨"D12"⟩)]
    (enter Composer.receiver (blockAround [unitDraw]) (.block ⟨"D11"⟩) before).state

/-- The run comes to the failing node in the body of the block. -/
theorem meets_insideBlock : Meets Composer.receiver { errorMode := .ignore } unitDraw insideBlock
    (.initial .initial) (blockFlashed [unitDraw]) (blockFlashed []) := by
  refine .later rfl (.later rfl ?_)
  show Meets _ _ _ _ _ ((Frame.block ⟨"D11"⟩).enclose (blockAround [unitDraw]) :: _)
    ((Frame.block ⟨"D11"⟩).enclose (blockAround []) :: _)
  exact .inside rfl (.later rfl .here)

/-- A line that is drawn inside of a block with an aperture that is not defined. -/
theorem result_compile_blockFlashed :
    Meets Composer.receiver { errorMode := .ignore } unitDraw insideBlock (.initial .initial)
      (blockFlashed [unitDraw]) (blockFlashed []) ∧
    (visit Composer.receiver { errorMode := .ignore } unitDraw insideBlock).result =
      .error (.apertureNotFound ⟨"D12"⟩) ∧
    ((compile { errorMode := .ignore } (blockFlashed [unitDraw])).run ()).result =
      ((compile { errorMode := .ignore } (blockFlashed [])).run ()).result := by
  have hfails : (visit Composer.receiver { errorMode := .ignore } unitDraw insideBlock).result =
      .error (.apertureNotFound ⟨"D12"⟩) := rfl
  refine ⟨meets_insideBlock, hfails, result_compile_of_skipped rfl ?_ meets_insideBlock hfails
    (by decide) (by simp) (by decide +kernel)⟩
  simp [Node.commandsOf, Node.commands, blockAround, circleAperture, unitDraw, flashHere]

/-! ### Traces -/

/-- An occurrence of a node fails in a program, the error is not fatal, and without this occurrence
the program has another result. -/
def LeavesTrace (options : Options) (program program' : List (Node α)) : Prop :=
  ∃ (node : Node α) (there : Machine α (Composer α)) (e : Error),
    Meets Composer.receiver options node there (.initial .initial) program program' ∧
    (visit Composer.receiver options node there).result = .error e ∧ ¬ e.isFatal ∧
    ((compile options program).run ()).result ≠ ((compile options program').run ()).result

/-- The items of a layer that a program needs, as they are drawn. -/
def drawn (options : Options) (program : List (Node α)) (id : LayerId) :
    Option (List (DrawCommand α)) :=
  (composed options program).allLayers[id]?.map fun layer => layer.items.toList.map .ofItem

/-- Programs with the same result draw the layers alike that they need. -/
theorem drawn_eq_of_result_compile_eq {program program' : List (Node α)} {id : LayerId}
    (h : ((compile options program).run ()).result = ((compile options program').run ()).result)
    (hrun : ((Machine.run Composer.receiver options program).run (.initial .initial)).result =
      .ok ()) {found : List LayerId}
    (horder : (composed options program).allLayers.order = .ok found)
    (hid : id ∈ found) : drawn options program id = drawn options program' id := by
  obtain ⟨picture, hpicture⟩ := Picture.exists_ofLayers horder
  have hcompile := h.symm.trans (compile_eq_ok_iff.mpr ⟨hrun, hpicture, rfl⟩)
  obtain ⟨-, hpicture', -⟩ := compile_eq_ok_iff.mp hcompile
  have hplaced := LayerTable.isOrder_of_order horder
  obtain ⟨layer, hlayer⟩ := LayerTable.mem_iff_lookup.mp (hplaced.known id hid)
  have hgiven := (Picture.layer?_eq_some_iff hpicture).mpr
    ⟨(hplaced.mem_iff_reaches id).mp hid, layer, hlayer, rfl⟩
  obtain ⟨-, layer', hlayer', hsame⟩ := (Picture.layer?_eq_some_iff hpicture').mp hgiven
  rw [drawn, drawn, hlayer, hlayer', Option.map_some, Option.map_some, hsame]

/-- A circle and a macro that divides by zero are defined, and the line that is drawn after some
nodes is as wide as the circle unless they define it anew. -/
def lineAfter (nodes : List (Node Float)) : List (Node Float) :=
  formatted (circleAperture ⟨"D10"⟩ 1 ::
    .command (.defineMacro ⟨"M", [.primitive (.circle (.constant 1)
      (.chain (.constant 1) [(.divide, .constant 0)]) (.constant 0) (.constant 0) none)]⟩) ::
    nodes ++ [.command (.selectAperture ⟨"D10"⟩), unitDraw])

/-- Defines the circle anew by the macro. -/
def macroAperture : Node Float := .command (.defineAperture ⟨⟨"D10"⟩, .macroCall "M" []⟩)

/-- A macro that has no value leaves a trace: the circle that it took the place of does not give the
line its width. -/
theorem leavesTrace_macroAperture :
    LeavesTrace { errorMode := .ignore } (lineAfter [macroAperture]) (lineAfter []) := by
  refine ⟨macroAperture, _, .expression .divisionByZero, .later rfl (.later rfl (.later rfl .here)),
    rfl, by decide, fun h => ?_⟩
  have hchain : (composed { errorMode := .ignore } (lineAfter [macroAperture])).allLayers.IsChain
      [.main] := ⟨by decide +kernel, trivial⟩
  have hsame := drawn_eq_of_result_compile_eq h (Action.eq_ok_of_isOk (by decide +kernel))
    (LayerTable.order_of_isChain hchain (by decide)) List.mem_cons_self
  have hlength := congrArg (Option.map List.length) hsame
  exact absurd hlength (by decide +kernel)

/-- A block flashes two apertures, the first of them a block itself, and the second one loses its
geometry. After some nodes the circle of the first one is defined anew, and it is flashed. -/
def flashAfter (nodes : List (Node Float)) : List (Node Float) :=
  formatted (circleAperture ⟨"D10"⟩ 1 ::
    .block ⟨"D11"⟩ [.command (.selectAperture ⟨"D10"⟩), flashHere] ::
    circleAperture ⟨"D12"⟩ 1 ::
    .block ⟨"D13"⟩ [.command (.selectAperture ⟨"D11"⟩), flashHere,
      .command (.selectAperture ⟨"D12"⟩), flashHere] ::
    .command (.selectAperture ⟨"D13"⟩) ::
    .command (.defineAperture ⟨⟨"D12"⟩, .unsupported "X"⟩) ::
    .command (.scale 2) ::
    nodes ++ [circleAperture ⟨"D10"⟩ 3, .command (.selectAperture ⟨"D11"⟩), flashHere])

/-- A flash that fails after some of its variants were built leaves them to a later flash. -/
theorem leavesTrace_flashHere :
    LeavesTrace { errorMode := .ignore } (flashAfter [flashHere]) (flashAfter []) := by
  refine ⟨flashHere, _, .layerNotFound ⟨"D12"⟩, .later rfl (.later rfl (.later rfl (.later rfl
    (.later rfl (.later rfl (.later rfl (.later rfl .here))))))), rfl, by decide, fun h => ?_⟩
  have hchain : (composed { errorMode := .ignore } (flashAfter [flashHere])).allLayers.IsChain
      [.main, ⟨"D11[MN,R0,S2]"⟩, ⟨"D10[MN,R0,S2]"⟩] :=
    ⟨by decide +kernel, by decide +kernel, by decide +kernel, trivial⟩
  have hsame := drawn_eq_of_result_compile_eq h (Action.eq_ok_of_isOk (by decide +kernel))
    (LayerTable.order_of_isChain hchain (by decide)) List.mem_cons_self
  exact absurd hsame (by decide +kernel)

/-- Two nodes that are skipped and leave traces: an aperture that takes the place of another one and
has no value, and a flash that leaves variants for a later one, which are out of date by then. -/
theorem leavesTrace_skipped :
    LeavesTrace { errorMode := .ignore } (lineAfter [macroAperture]) (lineAfter []) ∧
      LeavesTrace { errorMode := .ignore } (flashAfter [flashHere]) (flashAfter []) :=
  ⟨leavesTrace_macroAperture, leavesTrace_flashHere⟩

end Photoplot
