import Photoplot.Proofs.CurrentPoint
import Photoplot.Proofs.DecodingFormat
import Photoplot.Proofs.FilledContours
import Photoplot.Scalar.Double

/-!
# Contours of a Region

A region of straight edges is a list of operations with some other commands in between. Its moves
cut it into **stretches**, each of which is drawn as one polygon, unless it is degenerate. Nothing
else is drawn, and the composer is left with no open contour.

## Conventions

* **Stretches.** A stretch begins where the move before it landed, or at the current point of the
  beginning of the region, and goes through the points where its draws land. It takes the polarity
  that is set when it ends. Two moves in a row leave a stretch without draws between them, which is
  degenerate because its outline is a single point.
* **Plain commands.** Apart from draws and moves a region may hold flashes, which are passed over
  and do not move the current point, and commands that set the polarity, attributes and comments.
* **Depth.** The machine is any machine, so the region may stand in the bodies of blocks and
  step-and-repeats. The polygons go to the layer on top of the stack.

## Main definitions

* `Stretch`, `Traces`: the stretches of a list of commands.
* `Machine.Completes`: commands that all succeed.
* `Machine.Tracing`: a machine in the middle of a stretch.

## Main results

* `Machine.draw_eq`, `Machine.move_eq`, `Machine.perform_idle_eq`: one command in a region.
* `Machine.exists_stretches`: the rest of a region, by induction on its commands.
* `Machine.region_draws_stretches`: a region draws its stretches and nothing else.
-/

namespace Photoplot

variable {α σ : Type}

/-! ### Stretches -/

/-- Commands that do nothing to the contours of a region. -/
def Command.isIdle : Command α → Bool
  | .flash _ | .attribute _ _ | .deleteAttribute _ | .comment _ => true
  | _ => false

/-- Commands that may stand in a region of straight edges. -/
def Command.isPlain : Command α → Bool
  | .draw _ | .move _ | .polarity _ => true
  | c => c.isIdle

/-- The nodes of a region with a given body. -/
def Node.region (body : List (Command α)) : List (Node α) :=
  (Command.beginRegion :: body ++ [Command.endRegion]).map .command

/-- What is drawn between two moves. -/
structure Stretch (α : Type) where
  start : Point α
  targets : List (Point α)
  polarity : Polarity

section Stretches

variable [Scalar α]

namespace Stretch

/-- The vertices of a stretch without those that repeat the one before. -/
def outline (s : Stretch α) : List (Point α) :=
  Outline.withoutRepeats (1e-6 : α) (s.start :: s.targets)

/-- A stretch that encloses something. -/
def isFilled (s : Stretch α) : Bool := !Contour.isDegenerate s.outline

/-- The shapes that a stretch is drawn by, of which there is at most one. -/
def shapes (s : Stretch α) : List (Shape α) := Contour.filled s.outline s.polarity

/-- A shape is the polygon of a stretch, in either direction. -/
structure DrawnAs (s : Stretch α) (shape : Shape α) : Prop where
  geometry : shape.geometry = .polygon s.outline ∨ shape.geometry = .polygon s.outline.reverse
  polarity : shape.polarity = s.polarity

/-- A stretch without draws encloses nothing. -/
theorem isFilled_nil (start : Point α) (polarity : Polarity) :
    isFilled ⟨start, [], polarity⟩ = false :=
  rfl

/-- Stretches are drawn in order, except for the degenerate ones. -/
theorem forall₂_shapes (stretches : List (Stretch α)) :
    List.Forall₂ DrawnAs (stretches.filter isFilled) (stretches.flatMap shapes) := by
  induction stretches with
  | nil => exact .nil
  | cons s rest ih =>
      rw [List.filter_cons, List.flatMap_cons, isFilled, shapes, Contour.filled]
      cases Contour.isDegenerate s.outline with
      | true => exact ih
      | false =>
          refine .cons ⟨?_, rfl⟩ ih
          rcases Contour.oriented_eq_or s.outline with h | h
          · exact .inl (congrArg Geometry.polygon h)
          · exact .inr (congrArg Geometry.polygon h)

end Stretch

/-- Where the coordinates of an operation land that begins at a given point. -/
structure LandsFrom (format : Option CoordinateFormat) (p : Point α) (c : Coordinates)
    (q : Point α) : Prop where
  x : AxisLands format .x p.x c.x q.x
  y : AxisLands format .y p.y c.y q.y

/-- The stretches that commands **trace** from a current point and under a polarity. The first one
is the stretch that was begun before the commands. -/
inductive Traces (format : Option CoordinateFormat) :
    Point α → Polarity → List (Command α) → List (Stretch α) → Prop
  | done (p : Point α) (polarity : Polarity) : Traces format p polarity [] [⟨p, [], polarity⟩]
  | draw {p q : Point α} {polarity last : Polarity} {targets : List (Point α)}
      {rest : List (Command α)} {stretches : List (Stretch α)} {c : Coordinates}
      (hlands : LandsFrom format p c q)
      (h : Traces format q polarity rest (⟨q, targets, last⟩ :: stretches)) :
      Traces format p polarity (.draw c :: rest) (⟨p, q :: targets, last⟩ :: stretches)
  | move {p q : Point α} {polarity : Polarity} {rest : List (Command α)}
      {stretches : List (Stretch α)} {c : Coordinates} (hlands : LandsFrom format p c q)
      (h : Traces format q polarity rest stretches) :
      Traces format p polarity (.move c :: rest) (⟨p, [], polarity⟩ :: stretches)
  | polarity {p : Point α} {old new : Polarity} {rest : List (Command α)}
      {stretches : List (Stretch α)} (h : Traces format p new rest stretches) :
      Traces format p old (.polarity new :: rest) stretches
  | idle {p : Point α} {polarity : Polarity} {c : Command α} {rest : List (Command α)}
      {stretches : List (Stretch α)} (hidle : c.isIdle)
      (h : Traces format p polarity rest stretches) :
      Traces format p polarity (c :: rest) stretches

/-- An operation lands at one point. -/
theorem LandsFrom.unique {format : Option CoordinateFormat} {p q q' : Point α} {c : Coordinates}
    (h : LandsFrom format p c q) (h' : LandsFrom format p c q') : q = q' := by
  obtain ⟨x, y⟩ := q
  obtain ⟨x', y'⟩ := q'
  exact congrArg₂ Point.mk (h.x.unique h'.x) (h.y.unique h'.y)

/-- **The stretches are determined** by the commands. -/
theorem Traces.unique {format : Option CoordinateFormat} {p : Point α} {polarity : Polarity}
    {commands : List (Command α)} {stretches stretches' : List (Stretch α)}
    (h : Traces format p polarity commands stretches)
    (h' : Traces format p polarity commands stretches') : stretches = stretches' := by
  induction h generalizing stretches' with
  | done p polarity =>
      cases h'
      rfl
  | draw hlands h ih =>
      cases h' with
      | draw hlands' h' =>
          obtain rfl := hlands.unique hlands'
          cases ih h'
          rfl
      | idle hidle => cases hidle
  | move hlands h ih =>
      cases h' with
      | move hlands' h' =>
          obtain rfl := hlands.unique hlands'
          rw [ih h']
      | idle hidle => cases hidle
  | polarity h ih =>
      cases h' with
      | polarity h' => exact ih h'
      | idle hidle => cases hidle
  | idle hidle h ih =>
      cases h' with
      | idle _ h' => exact ih h'
      | _ => cases hidle

end Stretches

/-! ### Straight contours -/

namespace Contour

/-- The edges of a path from a point through others. -/
def lines : Point α → List (Point α) → List (Point α × Edge α)
  | _, [] => []
  | p, q :: rest => (p, .line q) :: lines q rest

/-- One more target adds an edge from the last point to it. -/
theorem lines_concat (p q : Point α) (targets : List (Point α)) :
    lines p (targets ++ [q]) = lines p targets ++ [(targets.getLastD p, .line q)] := by
  induction targets generalizing p with
  | nil => rfl
  | cons first rest ih => rw [List.cons_append, lines, ih, lines, List.getLastD_cons]; rfl

variable [Scalar α]

/-- Lines add the points that they lead to. -/
theorem flatMap_lines (p : Point α) (targets : List (Point α)) :
    (lines p targets).flatMap (edgeVertices ·.2) = targets := by
  induction targets generalizing p with
  | nil => rfl
  | cons q rest ih => rw [lines, List.flatMap_cons, ih]; rfl

/-- A path is filled as its points are, also if it has no edges and one point only. -/
theorem filled_lines (p : Point α) (targets : List (Point α)) (polarity : Polarity) :
    filled (cleaned (lines p targets)) polarity =
      filled (Outline.withoutRepeats (1e-6 : α) (p :: targets)) polarity := by
  cases targets with
  | nil => rfl
  | cons q rest =>
      have hdrawn : drawn (lines p (q :: rest)) = p :: q :: rest := by
        rw [drawn, flatMap_lines]
        rfl
      rw [cleaned, hdrawn]

end Contour

/-! ### Commands that succeed -/

namespace Machine

section Completes

variable [Scalar α] {r : Receiver α σ} {options : Options} {m m' : Machine α σ}

/-- Commands that **complete**: all of them succeed, one after the other. -/
def Completes (r : Receiver α σ) (m : Machine α σ) : List (Command α) → Machine α σ → Prop
  | [], m' => m' = m
  | c :: rest, m' => (perform r c m).result = .ok () ∧ Completes r (perform r c m).state rest m'

/-- One more command that succeeds after others. -/
theorem Completes.concat {commands : List (Command α)} {c : Command α}
    (h : Completes r m commands m') (hc : (perform r c m').result = .ok ()) :
    Completes r m (commands ++ [c]) (perform r c m').state := by
  induction commands generalizing m with
  | nil =>
      obtain rfl : m' = m := h
      exact ⟨hc, rfl⟩
  | cons first rest ih => exact ⟨h.1, ih h.2⟩

/-- Commands that complete and do not stop the run let it go on. -/
theorem visitAll_of_completes {commands : List (Command α)} (h : Completes r m commands m')
    (hflow : ∀ c ∈ commands, stops options c = .continue) :
    (visitAll r options (commands.map .command) m).result = .ok .continue ∧
      (visitAll r options (commands.map .command) m).state = m' := by
  induction commands generalizing m with
  | nil =>
      obtain rfl : m' = m := h
      rw [List.map_nil, visitAll]
      exact ⟨rfl, rfl⟩
  | cons c rest ih =>
      have hvisit : (visit r options (.command c) m).result = .ok .continue ∧
          (visit r options (.command c) m).state = (perform r c m).state := by
        rw [visit, ← hflow c List.mem_cons_self]
        exact Action.bind_eq_of_ok h.1
      obtain ⟨hresult, hstate⟩ := visitAll_cons r options (.command c) (rest.map .command) m
      rw [hvisit.1, hvisit.2] at hresult hstate
      obtain ⟨hr, hs⟩ := ih h.2 fun c hc => hflow c (List.mem_cons_of_mem _ hc)
      exact ⟨hresult.trans hr, hstate.trans hs⟩

end Completes

/-- A plain command does not stop the run. -/
theorem stops_of_isPlain (options : Options) {c : Command α} (h : c.isPlain) :
    stops options c = .continue := by
  cases c with
  | stop | optionalStop | endOfFile => cases h
  | _ => rfl

/-! ### Operations in a region -/

section Operations

variable [Scalar α] {r : Receiver α σ} {m : Machine α σ} {s : GraphicsState α} {receiver : σ}
  {c : Coordinates}

/-- Coordinates that could be read. -/
theorem load_eq (h : (onState (GraphicsState.load c) m).result = .ok ()) :
    ∃ pending formatInUse, (onState (GraphicsState.load c) m).state =
        { m with state := { m.state with pending, formatInUse } } ∧
      LandsFrom m.state.format m.state.position c
        (GraphicsState.target { m.state with pending, formatInUse }) := by
  have hstate : (onState (GraphicsState.load c) m).state =
    { m with state := (GraphicsState.load c m.state).state } := rfl
  replace h : (GraphicsState.load c m.state).result = .ok () := h
  rw [hstate]
  rcases GraphicsState.load_cases c m.state with
    ⟨hempty, hload⟩ | ⟨-, f, pending, hformat, hread, hload⟩ | ⟨-, e, hload⟩
  · have hlands := GraphicsState.lands_target_of_isEmpty hempty m.state
    rw [hload]
    exact ⟨{}, m.state.formatInUse, rfl, hlands.x, hlands.y⟩
  · have hlands := GraphicsState.lands_target hformat hread true
    rw [hload]
    exact ⟨pending, true, rfl, hlands.x, hlands.y⟩
  · rw [hload] at h
    cases h

variable (hload : (onState (GraphicsState.load c) m).result = .ok () ∧
  (onState (GraphicsState.load c) m).state = { m with state := s })
include hload

/-- In a region a draw command calls the callback for lines and moves the current point. -/
theorem draw_ends (hregion : s.inRegion = true) (hroute : m.route = .regionLine)
    (hline : (r.regionLine s s.segment m.receiver).result = .ok () ∧
      (r.regionLine s s.segment m.receiver).state = receiver) :
    (draw r c m).result = .ok () ∧
      (draw r c m).state = { m with state := s.commit, receiver } := by
  refine Action.bind_ends hload ?_
  rw [Action.gets_bind]
  dsimp only
  rw [if_pos hregion, Action.gets_bind]
  dsimp only
  obtain ⟨hresult, rfl⟩ := hline
  rw [hroute]
  exact Action.bind_ends (b := ()) ⟨hresult, rfl⟩ ⟨rfl, rfl⟩

/-- In a region a move flushes the contour and moves the current point. -/
theorem move_ends (hregion : s.inRegion = true)
    (hflush : (r.flushRegion s m.receiver).result = .ok () ∧
      (r.flushRegion s m.receiver).state = receiver) :
    (move r c m).result = .ok () ∧
      (move r c m).state = { m with state := s.commit, receiver } := by
  refine Action.bind_ends hload ?_
  rw [Action.gets_bind]
  dsimp only
  rw [if_pos hregion]
  obtain ⟨hresult, rfl⟩ := hflush
  exact Action.bind_ends (b := ()) ⟨hresult, rfl⟩ ⟨rfl, rfl⟩

/-- In a region a flash does nothing but load its coordinates. -/
theorem flash_ends (hregion : s.inRegion = true) :
    (flash r c m).result = .ok () ∧ (flash r c m).state = { m with state := s } := by
  refine Action.bind_ends hload ?_
  rw [Action.gets_bind]
  dsimp only
  rw [if_pos hregion]
  exact ⟨rfl, rfl⟩

end Operations

/-! ### One command in a region -/

section Tracing

variable [Scalar α] [Legible α] {m : Machine α (Composer α)} {first : Point α}
  {done : List (Point α)}

/-- A machine in the middle of a stretch, of which some targets are done. -/
structure Tracing (m : Machine α (Composer α)) (first : Point α) (done : List (Point α)) :
    Prop where
  inRegion : m.state.inRegion = true
  route : m.route = .regionLine
  contour : m.receiver.contour = some (.ofEdges (Contour.lines first done))
  position : m.state.position = done.getLastD first

/-- **A draw** goes on with the stretch. -/
theorem draw_eq {c : Coordinates} (h : Tracing m first done)
    (hok : (draw Composer.receiver c m).result = .ok ()) :
    ∃ q formatInUse, LandsFrom m.state.format m.state.position c q ∧
      (draw Composer.receiver c m).state =
        { m with
          state := { m.state with position := q, pending := {}, formatInUse }
          receiver := { m.receiver with
            contour := some (.ofEdges (Contour.lines first (done ++ [q]))) } } := by
  obtain ⟨_, hload, -⟩ := Action.exists_of_bind_eq_ok hok
  obtain ⟨pending, used, hloaded, hlands⟩ := load_eq hload
  have hextend := Composer.extendContour_ofEdges h.contour m.state.position
    [.line (GraphicsState.target { m.state with pending, formatInUse := used })]
  rw [List.map_singleton, h.position, ← Contour.lines_concat, ← h.position] at hextend
  exact ⟨_, used, hlands, (draw_ends ⟨hload, hloaded⟩ h.inRegion h.route hextend).2⟩

/-- **A move** draws the stretch and begins another one. -/
theorem move_eq {c : Coordinates} (h : Tracing m first done)
    (hok : (move Composer.receiver c m).result = .ok ()) :
    ∃ q formatInUse, LandsFrom m.state.format m.state.position c q ∧
      (move Composer.receiver c m).state =
        { m with
          state := { m.state with position := q, pending := {}, formatInUse }
          receiver := { m.receiver with
            top := m.receiver.top.append
              ((Stretch.shapes ⟨first, done, m.state.transform.polarity⟩).map .shape)
            contour := some (.ofEdges (Contour.lines q [])) } } := by
  obtain ⟨_, hload, -⟩ := Action.exists_of_bind_eq_ok hok
  obtain ⟨pending, used, hloaded, hlands⟩ := load_eq hload
  have hflush := Composer.flushContour_ofEdges { m.state with pending, formatInUse := used }
    h.contour
  rw [Contour.filled_lines] at hflush
  exact ⟨_, used, hlands, (move_ends ⟨hload, hloaded⟩ h.inRegion hflush).2⟩

/-- **Commands that are idle** change no more than what coordinates and attributes were read. -/
theorem perform_idle_eq {c : Command α} (hidle : c.isIdle) (h : Tracing m first done)
    (hok : (perform Composer.receiver c m).result = .ok ()) :
    ∃ pending formatInUse attributes, (perform Composer.receiver c m).state =
      { m with state := { m.state with pending, formatInUse, attributes } } := by
  cases c with
  | flash c =>
      obtain ⟨_, hload, -⟩ := Action.exists_of_bind_eq_ok hok
      obtain ⟨pending, used, hloaded, -⟩ := load_eq hload
      exact ⟨pending, used, m.state.attributes, (flash_ends ⟨hload, hloaded⟩ h.inRegion).2⟩
  | «attribute» kind a => exact ⟨_, _, _, rfl⟩
  | deleteAttribute name => exact ⟨_, _, _, rfl⟩
  | comment text => exact ⟨_, _, _, rfl⟩
  | _ => cases hidle

/-- **The end of the region** draws the stretch. -/
theorem perform_endRegion (h : Tracing m first done) :
    (perform Composer.receiver .endRegion m).result = .ok () ∧
      (perform Composer.receiver .endRegion m).state.receiver =
        { m.receiver with
          top := m.receiver.top.append
            ((Stretch.shapes ⟨first, done, m.state.transform.polarity⟩).map .shape)
          contour := none } := by
  obtain ⟨hresult, hstate⟩ := Composer.flushContour_ofEdges m.state h.contour
  rw [Contour.filled_lines] at hstate
  refine ⟨hresult, ?_⟩
  show { (Composer.flushContour m.state m.receiver).state with contour := none } = _
  rw [hstate]
  rfl

/-- **The rest of a region**, from the middle of a stretch on. -/
theorem exists_stretches {body : List (Command α)} {m' : Machine α (Composer α)}
    (hplain : ∀ c ∈ body, c.isPlain) (hbody : Completes Composer.receiver m body m')
    (h : Tracing m first done) :
    ∃ targets last stretches,
      Traces m.state.format m.state.position m.state.transform.polarity body
        (⟨m.state.position, targets, last⟩ :: stretches) ∧
      (perform Composer.receiver .endRegion m').result = .ok () ∧
      (perform Composer.receiver .endRegion m').state.receiver =
        { m.receiver with
          top := m.receiver.top.append
            (((⟨first, done ++ targets, last⟩ :: stretches).flatMap Stretch.shapes).map .shape)
          contour := none } := by
  induction body generalizing m first done with
  | nil =>
      obtain rfl : m' = m := hbody
      obtain ⟨hresult, hreceiver⟩ := perform_endRegion h
      refine ⟨[], _, [], .done _ _, hresult, ?_⟩
      rw [hreceiver, List.append_nil, List.flatMap_cons, List.flatMap_nil, List.append_nil]
  | cons c rest ih =>
      obtain ⟨hok, hrest⟩ := hbody
      have hplain' : ∀ c ∈ rest, c.isPlain := fun c hc => hplain c (List.mem_cons_of_mem _ hc)
      cases c with
      | draw c =>
          obtain ⟨q, used, hlands, hstate⟩ := draw_eq h hok
          rw [perform, hstate] at hrest
          obtain ⟨targets, last, stretches, htraces, hresult, hreceiver⟩ :=
            ih hplain' hrest ⟨h.inRegion, h.route, rfl, List.getLastD_concat.symm⟩
          refine ⟨q :: targets, last, stretches, .draw hlands htraces, hresult, ?_⟩
          rw [hreceiver, List.append_assoc]
          rfl
      | move c =>
          obtain ⟨q, used, hlands, hstate⟩ := move_eq h hok
          rw [perform, hstate] at hrest
          obtain ⟨targets, last, stretches, htraces, hresult, hreceiver⟩ :=
            ih hplain' hrest ⟨h.inRegion, h.route, rfl, rfl⟩
          refine ⟨[], _, _, .move hlands htraces, hresult, ?_⟩
          rw [hreceiver, List.append_nil, Layer.append_append, ← List.map_append]
          rfl
      | polarity p =>
          obtain ⟨targets, last, stretches, htraces, hresult, hreceiver⟩ :=
            ih hplain' hrest ⟨h.inRegion, h.route, h.contour, h.position⟩
          exact ⟨targets, last, stretches, .polarity htraces, hresult, hreceiver⟩
      | flash _ | «attribute» _ _ | deleteAttribute _ | comment _ =>
          obtain ⟨pending, used, attributes, hstate⟩ := perform_idle_eq rfl h hok
          rw [hstate] at hrest
          obtain ⟨targets, last, stretches, htraces, hresult, hreceiver⟩ :=
            ih hplain' hrest ⟨h.inRegion, h.route, h.contour, h.position⟩
          exact ⟨targets, last, stretches, .idle rfl htraces, hresult, hreceiver⟩
      | _ => cases hplain _ List.mem_cons_self

/-- **Contours of a region.** A region of straight edges draws exactly one polygon for each of its
stretches that is not degenerate, in order, and nothing else: the outline of the stretch or its
reversal, under the polarity that was set when the stretch ended. After that no contour is open.
There is nothing to draw between two moves in a row, or for a contour that has just been flushed. -/
theorem region_draws_stretches (options : Options) {body : List (Command α)}
    {m' : Machine α (Composer α)} (hlinear : m.state.plotMode = .linear)
    (hplain : ∀ c ∈ body, c.isPlain)
    (hbody : Completes Composer.receiver m (.beginRegion :: body) m') :
    (∃ stretches shapes ended,
      Traces m.state.format m.state.position m.state.transform.polarity body stretches ∧
      List.Forall₂ Stretch.DrawnAs (stretches.filter Stretch.isFilled) shapes ∧
      ended.receiver =
        { m.receiver with top := m.receiver.top.append (shapes.map .shape), contour := none } ∧
      ∀ after,
        (visitAll Composer.receiver options (Node.region body ++ after) m).result =
            (visitAll Composer.receiver options after ended).result ∧
          (visitAll Composer.receiver options (Node.region body ++ after) m).state =
            (visitAll Composer.receiver options after ended).state) ∧
    (∀ (p : Point α) polarity, Stretch.isFilled ⟨p, [], polarity⟩ = false) ∧
    ∀ (s s' : GraphicsState α) (c : Composer α), c.contour.isSome →
      let flushed := (Composer.flushContour s c).state
      (Composer.flushContour s' flushed).result = .ok () ∧
        (Composer.flushContour s' flushed).state = flushed := by
  refine ⟨?_, Stretch.isFilled_nil, fun s s' c => Composer.flushContour_again s s'⟩
  have hbegin : Tracing (perform Composer.receiver .beginRegion m).state m.state.position [] := by
    refine ⟨rfl, ?_, rfl, rfl⟩
    show Route.ofModes m.state.plotMode m.state.quadrant true = .regionLine
    rw [hlinear]
    cases m.state.quadrant <;> rfl
  obtain ⟨targets, last, stretches, htraces, hresult, hreceiver⟩ :=
    exists_stretches hplain hbody.2 hbegin
  have hflow : ∀ c ∈ Command.beginRegion :: body ++ [.endRegion], stops options c = .continue := by
    intro c hc
    rcases List.mem_append.mp hc with hc | hc
    · rcases List.mem_cons.mp hc with rfl | hc
      · rfl
      · exact stops_of_isPlain options (hplain c hc)
    · obtain rfl := List.mem_singleton.mp hc
      rfl
  obtain ⟨hcontinue, hended⟩ := visitAll_of_completes (hbody.concat hresult) hflow
  refine ⟨_, _, _, htraces, Stretch.forall₂_shapes _, hreceiver, fun after => ?_⟩
  rw [← hended]
  exact visitAll_append hcontinue after

end Tracing

/-- A machine in the body of a block. -/
def insideBlock : Machine Float (Composer Float) :=
  let composer : Composer Float :=
    { Composer.initial with top := .empty (.ofAperture ⟨"D12"⟩), below := [.empty .main] }
  { initial composer with
    state := { GraphicsState.initial with format := some ⟨.leading, .absolute, ⟨2, 4⟩, ⟨2, 4⟩⟩ } }

/-- A triangle with a flash on its way, which becomes clear before it ends, and two moves. -/
def clearTriangle : List (Command Float) :=
  [.draw ⟨some "10000", none, none, none⟩, .flash ⟨some "50000", some "50000", none, none⟩,
    .draw ⟨some "0", some "10000", none, none⟩, .polarity .clear,
    .move ⟨some "20000", none, none, none⟩, .move ⟨some "30000", none, none, none⟩]

/-- A triangle inside a block, drawn in clear. -/
theorem region_draws_stretches_clearTriangle :
    ∃ stretches shapes ended,
      Traces insideBlock.state.format .origin .dark clearTriangle stretches ∧
      List.Forall₂ Stretch.DrawnAs (stretches.filter Stretch.isFilled) shapes ∧
      ended.receiver = { insideBlock.receiver with
        top := insideBlock.receiver.top.append (shapes.map .shape), contour := none } ∧
      ∀ after,
        (visitAll Composer.receiver {} (Node.region clearTriangle ++ after) insideBlock).state =
          (visitAll Composer.receiver {} after ended).state := by
  have hbody : ∃ m',
      Completes Composer.receiver insideBlock (.beginRegion :: clearTriangle) m' :=
    ⟨_, by decide +kernel, by decide +kernel, by decide +kernel, by decide +kernel,
      by decide +kernel, by decide +kernel, by decide +kernel, rfl⟩
  obtain ⟨m', hbody⟩ := hbody
  obtain ⟨stretches, shapes, ended, htraces, hdrawn, hreceiver, hafter⟩ :=
    (region_draws_stretches {} rfl (by decide) hbody).1
  exact ⟨stretches, shapes, ended, htraces, hdrawn, hreceiver, fun after => (hafter after).2⟩

end Machine

end Photoplot
