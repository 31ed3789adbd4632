import Photoplot.Proofs.Agreement
import Photoplot.Proofs.StackDiscipline
import Photoplot.Proofs.VariantHistory

/-!
# Commands That Fail

Nothing is undone by an error, so what a failed command leaves behind is whatever it had done by
then. Mostly that is nothing that can be told apart from before. The exceptions are the definition
of an aperture whose macro has no value, which has taken the place of an older definition, and a
flash that has built variants before it found one of its layers missing.

## Conventions

* **Isolation.** Nothing is said about errors that end the run anyway, about errors of expressions
  and about commands that build variants (`Machine.Isolated`).
* **Order.** The end of a region that was never begun would leave a trace if the machine could think
  that it is inside of a region without a contour. It never does (`Machine.Settled`).

## Main definitions

* `Action.Atomic`: an action that changes nothing when it fails.
* `Machine.Settled`: what holds between the parts of a machine in every run.
* `Machine.Isolated`: a failed action that leaves no trace, with the exceptions.

## Main results

* `ApertureMacro.evaluates_shapes`: macros fail only with errors of expressions.
* `Machine.invariant_settled`: machines stay settled.
* `Machine.ensures_perform`: every command that fails is isolated.
* `Machine.isFatal_of_visit_enclose`: nodes with a body fail only with fatal errors.
-/

namespace Photoplot

variable {α σ β γ : Type}

namespace Action

/-! ### Atomic actions -/

/-- An action that changes nothing when it fails. -/
def Atomic (a : Action σ β) : Prop := ∀ s e, (a s).result = .error e → (a s).state = s

/-- An action that never changes its state is atomic. -/
theorem Atomic.of_keeps {a : Action σ β} (h : ∀ s, Keeps (· = s) a) : Atomic a :=
  fun s _ _ => h s s rfl

/-- What never fails is atomic. -/
theorem Atomic.of_ok {a : Action σ β} (h : ∀ s, ∃ b, (a s).result = .ok b) : Atomic a := by
  intro s e he
  obtain ⟨b, hb⟩ := h s
  rw [hb] at he
  cases he

/-- An atomic action may follow one that changes nothing at all. -/
theorem Atomic.bind {a : Action σ β} {f : β → Action σ γ} (ha : ∀ s, Keeps (· = s) a)
    (hf : ∀ b, Atomic (f b)) : Atomic (a >>= f) := by
  intro s e he
  have hkept : (a s).state = s := ha s s rfl
  cases hresult : (a s).result with
  | error e' => rw [(bind_eq_of_error hresult).2, hkept]
  | ok b =>
      obtain ⟨hr, hstate⟩ := bind_eq_of_ok (f := f) hresult
      rw [hkept] at hr hstate
      rw [hstate]
      exact hf b s e (hr.symm.trans he)

end Action

/-! ### Macros -/

section Macros

variable [Scalar α]

/-- An action on bindings that fails only with errors of expressions. -/
def Evaluates (a : Action (Bindings α) β) : Prop :=
  a.Ensures (fun _ => True) (fun _ _ => True) fun e _ => ∃ x, e = .expression x

omit [Scalar α] in
/-- A value that is ready fails in no way. -/
theorem Evaluates.pure (b : β) : Evaluates (pure b : Action (Bindings α) β) := fun _ _ => trivial

omit [Scalar α] in
/-- A warning fails in no way. -/
theorem Evaluates.warn (w : Warning) : Evaluates (Action.warn w : Action (Bindings α) Unit) :=
  fun _ _ => trivial

omit [Scalar α] in
/-- A sequence fails only with errors of expressions if its parts do. -/
theorem Evaluates.bind {a : Action (Bindings α) β} {f : β → Action (Bindings α) γ}
    (ha : Evaluates a) (hf : ∀ b, Evaluates (f b)) : Evaluates (a >>= f) :=
  Action.Ensures.bind ha hf

omit [Scalar α] in
/-- A result that is that of an expression fails only with its error. -/
theorem Evaluates.ofExcept (r : Except ExpressionError β) :
    Evaluates (Action.ofExcept (r.mapError .expression) : Action (Bindings α) β) := by
  intro b _
  cases r with
  | error x => exact ⟨x, rfl⟩
  | ok _ => trivial

/-- An operand fails only with the error of its expression. -/
theorem evaluates_value (e : Expression α) : Evaluates (value e) := fun b _ =>
  Evaluates.ofExcept (e.eval b) b trivial

/-- A point fails only with errors of its expressions. -/
theorem evaluates_pointValue (x y : Expression α) : Evaluates (pointValue x y) :=
  .bind (evaluates_value x) fun _ => .bind (evaluates_value y) fun _ => .pure _

/-- Points in order fail only with errors of their expressions. -/
theorem evaluates_pointValues (points : List (Expression α × Expression α)) :
    Evaluates (pointValues points) := by
  induction points with
  | nil => exact .pure _
  | cons point rest ih =>
      exact .bind (evaluates_pointValue _ _) fun _ => .bind ih fun _ => .pure _

/-- An exposure fails only with the error of its expression. -/
theorem evaluates_polarityValue (e : Expression α) : Evaluates (polarityValue e) :=
  .bind (evaluates_value e) fun _ => .pure _

/-- A primitive fails only with errors of its operands. -/
theorem Primitive.evaluates_shapes (name : String) (p : Primitive α) :
    Evaluates (p.shapes name) := by
  cases p with
  | circle exposure diameter x y rotation =>
      have hrest (degrees : α) := Evaluates.bind (evaluates_pointValue x y) fun center =>
        .bind (evaluates_value diameter) fun diameter =>
          .bind (evaluates_polarityValue exposure) fun polarity =>
            .pure [(⟨.circle (center.rotate degrees) (Scalar.abs diameter), polarity⟩ : Shape α)]
      cases rotation with
      | none => exact .bind (.pure 0) hrest
      | some rotation => exact .bind (evaluates_value rotation) hrest
  | vectorLine exposure width startX startY endX endY rotation =>
      refine .bind (evaluates_pointValue _ _) fun start => ?_
      refine .bind (evaluates_pointValue _ _) fun stop => ?_
      refine .bind (evaluates_value _) fun width => ?_
      dsimp only
      split
      · exact .bind (.warn _) fun _ => .pure _
      · exact .bind (evaluates_value _) fun _ =>
          .bind (evaluates_polarityValue _) fun _ => .pure _
  | centerLine exposure width height x y rotation =>
      exact .bind (evaluates_value _) fun _ => .bind (evaluates_value _) fun _ =>
        .bind (evaluates_pointValue _ _) fun _ => .bind (evaluates_value _) fun _ =>
          .bind (evaluates_polarityValue _) fun _ => .pure _
  | lowerLeftLine exposure width height x y rotation =>
      exact .bind (evaluates_pointValue _ _) fun _ => .bind (evaluates_value _) fun _ =>
        .bind (evaluates_value _) fun _ => .bind (evaluates_value _) fun _ =>
          .bind (evaluates_polarityValue _) fun _ => .pure _
  | outline exposure points rotation =>
      refine .bind (evaluates_pointValues _) fun points => ?_
      dsimp only
      split
      · exact .bind (.warn _) fun _ => .pure _
      · exact .bind (evaluates_value _) fun _ =>
          .bind (evaluates_polarityValue _) fun _ => .pure _
  | polygon exposure vertices x y diameter rotation =>
      exact .bind (evaluates_value _) fun _ => .bind (evaluates_pointValue _ _) fun _ =>
        .bind (evaluates_value _) fun _ => .bind (evaluates_value _) fun _ =>
          .bind (evaluates_polarityValue _) fun _ => .pure _
  | moire x y outerDiameter ringThickness gap maxRings crosshairThickness crosshairLength
      rotation =>
      exact .bind (evaluates_value _) fun _ => .bind (evaluates_pointValue _ _) fun _ =>
        .bind (evaluates_value _) fun _ => .bind (evaluates_value _) fun _ =>
          .bind (evaluates_value _) fun _ => .bind (evaluates_value _) fun _ =>
            .bind (evaluates_value _) fun _ => .bind (evaluates_value _) fun _ => .pure _
  | thermal x y outerDiameter innerDiameter gap rotation =>
      refine .bind (evaluates_pointValue _ _) fun _ => ?_
      refine .bind (evaluates_value _) fun _ => ?_
      refine .bind (evaluates_value _) fun _ => ?_
      refine .bind (evaluates_value _) fun _ => ?_
      refine .bind (evaluates_value _) fun _ => ?_
      dsimp only
      split
      · exact .bind (.warn _) fun _ => .pure _
      · exact .pure _

/-- A statement fails only with errors of its operands. -/
theorem MacroStatement.evaluates_shapes (name : String) (s : MacroStatement α) :
    Evaluates (s.shapes name) := by
  cases s with
  | comment text => exact .pure _
  | assignment number e =>
      refine .bind (evaluates_value e) fun v => ?_
      refine .bind (fun _ _ => trivial) fun b => ?_
      exact .bind (.ofExcept _) fun b => .bind (fun _ _ => trivial) fun _ => .pure _
  | primitive p => exact p.evaluates_shapes name

namespace ApertureMacro

/-- A macro fails only with errors of its operands. -/
theorem evaluates_bodyShapes (name : String) (body : List (MacroStatement α)) :
    Evaluates (bodyShapes name body) := by
  induction body with
  | nil => exact .pure _
  | cons s rest ih => exact .bind (s.evaluates_shapes name) fun _ => .bind ih fun _ => .pure _

/-- **Macros** fail only with errors of expressions. -/
theorem evaluates_shapes (m : ApertureMacro α) (parameters : List α) :
    (m.shapes parameters : Action σ (List (Shape α))).Ensures (fun _ => True) (fun _ _ => True)
      fun e _ => ∃ x, e = .expression x :=
  fun _ _ => evaluates_bodyShapes m.name m.body (Bindings.ofParameters parameters) trivial

end ApertureMacro

end Macros

/-! ### Machines in a run -/

/-- The modes that the route of draw commands depends on. -/
def GraphicsState.modes (s : GraphicsState α) : PlotMode × Quadrant × Bool :=
  (s.plotMode, s.quadrant, s.inRegion)

namespace Composer

/-- Drawing neither opens nor closes a contour. -/
theorem steady_isSome_contour (b : Bool) : Steady fun c : Composer α => c.contour.isSome = b where
  shapes _ _ h := h
  contour _ _ hopen h := hopen.trans h

end Composer

namespace Machine

/-- The route is that of the modes, and there is a contour inside of regions only. -/
structure InOrder (m : Machine α (Composer α)) : Prop where
  route : m.route = .ofModes m.state.plotMode m.state.quadrant m.state.inRegion
  contour : m.state.inRegion = m.receiver.contour.isSome

/-- A machine stays in order when neither its modes nor its route nor the presence of a contour
change. -/
theorem InOrder.of_modes {m m' : Machine α (Composer α)} (h : m.InOrder)
    (hmodes : m'.state.modes = m.state.modes) (hroute : m'.route = m.route)
    (hcontour : m'.receiver.contour.isSome = m.receiver.contour.isSome) : m'.InOrder := by
  obtain ⟨hmode, hquadrant, hregion⟩ :
      m'.state.plotMode = m.state.plotMode ∧ m'.state.quadrant = m.state.quadrant ∧
        m'.state.inRegion = m.state.inRegion := by
    simpa [GraphicsState.modes] using hmodes
  exact ⟨by rw [hroute, hmode, hquadrant, hregion]; exact h.route,
    by rw [hregion, hcontour]; exact h.contour⟩

/-- A change of the graphics state that leaves the modes alone keeps order. -/
theorem keeps_inOrder_modifyState {f : GraphicsState α → GraphicsState α}
    (hf : ∀ s, (f s).modes = s.modes) : Action.Keeps InOrder (modifyState f) :=
  fun m h => h.of_modes (hf m.state) rfl rfl

/-- An action on the graphics state that leaves the modes alone keeps order. -/
theorem keeps_inOrder_onState {a : Action (GraphicsState α) β}
    (ha : ∀ modes, a.Keeps fun s => s.modes = modes) : Action.Keeps InOrder (onState a) :=
  fun m h => h.of_modes (ha _ m.state rfl) rfl rfl

/-- A callback that neither opens nor closes a contour keeps order. -/
theorem keeps_inOrder_tell {callback : GraphicsState α → Action (Composer α) Unit}
    (h : ∀ s isSome, (callback s).Keeps fun c => c.contour.isSome = isSome) :
    Action.Keeps InOrder (tell callback) :=
  fun m hm => hm.of_modes rfl rfl (h m.state _ m.receiver rfl)

/-- To select an aperture keeps order. -/
theorem keeps_inOrder_select (id : ApertureId) :
    Action.Keeps InOrder (select id : Action (Machine α (Composer α)) Unit) :=
  keeps_select (fun _ _ _ h => h.of_modes rfl rfl rfl) id

/-- To look the selected aperture up anew keeps order. -/
theorem keeps_inOrder_reselect (id : ApertureId) :
    Action.Keeps InOrder (reselect id : Action (Machine α (Composer α)) Unit) :=
  keeps_reselect_of_select (keeps_inOrder_select id)

/-- A change of the modes is followed by that of the route. -/
theorem keeps_inOrder_reroute {f : GraphicsState α → GraphicsState α}
    (hf : ∀ s, (f s).inRegion = s.inRegion) :
    Action.Keeps InOrder (do
      modifyState f
      reroute : Action (Machine α (Composer α)) Unit) :=
  fun m h => ⟨rfl, (hf m.state).trans h.contour⟩

/-- To read coordinates keeps order. -/
theorem keeps_inOrder_load [Scalar α] (c : Coordinates) :
    Action.Keeps InOrder (onState (GraphicsState.load c) :
      Action (Machine α (Composer α)) Unit) :=
  keeps_inOrder_onState fun _ => GraphicsState.keeps_load (fun _ _ _ h => h) c

section

variable [Scalar α] [Legible α]

/-- Every command keeps order, whether or not it fails. -/
theorem keeps_inOrder_perform (c : Command α) :
    Action.Keeps InOrder (perform Composer.receiver c) := by
  have hcommit : Action.Keeps InOrder
      (modifyState GraphicsState.commit : Action (Machine α (Composer α)) Unit) :=
    keeps_inOrder_modifyState fun _ => rfl
  cases c with
  | format f =>
      exact keeps_inOrder_onState fun _ => GraphicsState.keeps_setFormat fun _ h => h
  | defineAperture d =>
      refine Action.Keeps.bind (keeps_inOrder_onState fun _ =>
        GraphicsState.keeps_defineAperture fun _ _ h => h) fun _ => ?_
      exact Action.Keeps.bind (keeps_inOrder_tell fun s isSome =>
        Composer.keeps_defineAperture (fun _ _ h => h) fun _ _ _ h => h) fun _ =>
          keeps_inOrder_reselect d.id
  | selectAperture id => exact keeps_inOrder_select id
  | draw c =>
      exact keeps_draw (keeps_inOrder_load c) (fun route => keeps_inOrder_tell fun s isSome =>
        (Composer.steady_isSome_contour isSome).keeps_send s _ route) hcommit
  | move c =>
      exact keeps_move (keeps_inOrder_load c) (keeps_inOrder_tell fun s isSome =>
        (Composer.steady_isSome_contour isSome).keeps_flushContour s) hcommit
  | flash c =>
      exact keeps_flash (keeps_inOrder_load c) (fun id target => keeps_inOrder_tell fun s isSome =>
        Composer.keeps_flash (Action.Keeps.ensures fun _ h => h) fun _ _ h => h) hcommit
  | plotMode mode | quadrant q => exact keeps_inOrder_reroute fun _ => rfl
  | beginRegion => exact fun m _ => ⟨rfl, rfl⟩
  | endRegion => exact fun m _ => ⟨rfl, rfl⟩
  | comment _ | stop | optionalStop | endOfFile => exact Action.Keeps.pure _
  | unit u | legacyUnit u | defineMacro m | polarity p | mirroring m | rotation degrees
  | scale factor | «attribute» kind a | deleteAttribute name =>
      exact keeps_inOrder_modifyState fun _ => rfl

omit [Scalar α] [Legible α] in
/-- To skip a node keeps order. -/
theorem keeps_inOrder_skip (options : Options) (node : Node α) (e : Error) :
    Action.Keeps InOrder (skip options node e : Action (Machine α (Composer α)) Unit) := by
  unfold skip
  split
  · exact Action.Keeps.fail _
  split
  · exact Action.Keeps.fail _
  · exact Action.Keeps.pure _
  · refine Action.Keeps.bind (Action.Keeps.warn _) fun _ => ?_
    exact Action.Keeps.modify fun m h => h.of_modes rfl rfl rfl

/-- Machines in order stay in order. -/
theorem invariant_inOrder (options : Options) :
    Invariant Composer.receiver options (fun _ => True) (InOrder (α := α)) where
  perform c _ := keeps_inOrder_perform c
  skip := keeps_inOrder_skip options
  enter frame body := by
    cases frame with
    | block id =>
        refine Action.Keeps.bind (keeps_inOrder_modifyState fun _ => rfl) fun _ => ?_
        refine Action.Keeps.bind (keeps_inOrder_reselect id) fun _ => ?_
        exact keeps_inOrder_tell fun _ _ _ h => h
    | stepRepeat grid => exact keeps_inOrder_tell fun _ _ _ h => h
  leave frame body position m h := by
    have hrestored : InOrder { m with state := { m.state with position } } :=
      h.of_modes rfl rfl rfl
    cases frame with
    | block id =>
        exact keeps_inOrder_tell (fun _ isSome => Composer.keeps_endBlock fun _ _ _ _ h => h) _
          hrestored
    | stepRepeat grid =>
        exact keeps_inOrder_tell (fun _ isSome => Composer.keeps_endStepRepeat fun _ _ _ _ h => h) _
          hrestored

/-- A machine in order whose library is explained by its history. -/
def Settled (m : Machine α (Composer α)) : Prop :=
  m.InOrder ∧ m.receiver.Tied Library.Chronicled

/-- **Machines stay settled**, whatever they carry out. -/
theorem invariant_settled (options : Options) :
    Invariant Composer.receiver options (fun _ => True) (Settled (α := α)) := by
  have hkeeps := Composer.keeps_receiver (α := α)
    (fun lib l h => h.revise fun _ _ _ _ heq => by cases heq)
    (fun lib id h => h.revise fun _ _ _ _ heq => by cases heq) Library.keeps_variant
  exact (invariant_inOrder options).and
    (.of_keeps { hkeeps with apertureDefined := fun _ _ => Action.Keeps.pure _ }
      fun s d _ => hkeeps.apertureDefined s d)

/-- A machine begins settled. -/
theorem settled_initial : (initial Composer.initial : Machine α (Composer α)).Settled :=
  ⟨⟨rfl, rfl⟩, Composer.tied_initial Library.chronicled_empty⟩

end

end Machine

/-! ### Callbacks that fail -/

namespace GraphicsState

/-- An aperture is not defined without its macro. -/
theorem ensures_defineAperture (d : ApertureDefinition α) (s : GraphicsState α) :
    (defineAperture d).Ensures (· = s) (fun _ s' => s'.HasMacro d) fun _ s' => s' = s := by
  rintro s' rfl
  obtain ⟨hhas, hdefined⟩ | ⟨name, parameters, -, -, hfailed⟩ := defineAperture_cases d s'
  · rw [hdefined]
    exact hhas
  · rw [hfailed]

end GraphicsState

namespace Composer

variable [Scalar α]

/-- Only a macro without a value makes an aperture fail. -/
theorem ensures_defineAperture [Legible α] {P : Composer α → Prop} {s : GraphicsState α}
    {d : ApertureDefinition α} (h : s.HasMacro d) :
    (defineAperture s d).Ensures P (fun _ _ => True) fun e _ => ∃ x, e = .expression x := by
  have hshapes : (apertureShapes s d.template).Ensures P (fun _ _ => True)
      fun e _ => ∃ x, e = .expression x := by
    cases htemplate : d.template with
    | circle | rectangle | obround | polygon | unsupported => exact fun _ _ => trivial
    | macroCall name parameters =>
        obtain ⟨m, hm⟩ := Option.isSome_iff_exists.mp
          (Std.TreeMap.mem_iff_isSome_getElem?.mp (h name parameters htemplate))
        unfold apertureShapes
        dsimp only
        rw [hm]
        exact Action.Ensures.bind ((m.evaluates_shapes parameters).strengthen fun _ _ => trivial)
          fun shapes _ _ => trivial
  refine Action.Ensures.bind hshapes fun shapes => ?_
  cases shapes with
  | none => exact fun _ _ => trivial
  | some shapes => exact fun _ _ => trivial

/-- A stroke that fails has drawn nothing. -/
theorem atomic_stroke (s : GraphicsState α) (segment : Segment α)
    (strokes : α → List (Geometry α)) : Action.Atomic (stroke s segment strokes) := by
  refine Action.Atomic.bind (fun _ => (refines_strokeWidth s _ _).keeps) fun width => ?_
  cases width with
  | none => exact Action.Atomic.of_ok fun _ => ⟨_, rfl⟩
  | some width => exact Action.Atomic.of_ok fun _ => ⟨_, rfl⟩

omit [Scalar α] in
/-- An edge that fails has not been added. -/
theorem atomic_extendContour (start : Point α) (edges : List (Edge α)) :
    Action.Atomic (extendContour start edges) := by
  refine Action.Atomic.bind (fun _ => Action.Keeps.gets _) fun isNone => ?_
  split
  · exact Action.Atomic.of_keeps fun _ => Action.Keeps.fail _
  · exact Action.Atomic.of_ok fun _ => ⟨_, rfl⟩

/-- A contour that cannot be drawn is left as it was. -/
theorem atomic_flushContour (s : GraphicsState α) : Action.Atomic (flushContour s) := by
  refine Action.Atomic.bind (fun _ => Action.Keeps.gets _) fun contour => ?_
  cases contour with
  | none => exact Action.Atomic.of_keeps fun _ => Action.Keeps.fail _
  | some contour =>
      refine Action.Atomic.bind (fun _ => Action.Keeps.inside _ _) fun outline => ?_
      cases outline with
      | none => exact Action.Atomic.of_ok fun _ => ⟨_, rfl⟩
      | some outline => exact Action.Atomic.of_ok fun _ => ⟨_, rfl⟩

/-- A contour can always be closed. -/
theorem exists_close (contour : Contour α) :
    ∃ outline, (Contour.close contour).result = .ok outline := by
  rw [Contour.close, Action.get_bind]
  cases contour.start with
  | none => exact ⟨_, rfl⟩
  | some start =>
      dsimp only
      rw [(Action.bind_eq_of_ok (a := Action.modify _) rfl).1]
      split
      · exact ⟨_, rfl⟩
      split
      · exact ⟨_, rfl⟩
      · exact ⟨_, rfl⟩

/-- Only a missing contour cannot be drawn. -/
theorem contour_eq_none_of_flushContour {s : GraphicsState α} {c : Composer α} {e : Error}
    (h : (flushContour s c).result = .error e) : c.contour = none := by
  rw [flushContour, Action.gets_bind] at h
  cases hcontour : c.contour with
  | none => rfl
  | some contour =>
      rw [hcontour] at h
      obtain ⟨outline, hclose⟩ := exists_close contour
      have hinside : (Action.inside contour Contour.close c).result = .ok outline := hclose
      rw [(Action.bind_eq_of_ok hinside).1] at h
      cases outline <;> cases h

variable [Legible α]

/-- A draw command that fails has drawn nothing. -/
theorem atomic_send (s : GraphicsState α) (segment : Segment α) (route : Route) :
    Action.Atomic (route.send receiver s segment) := by
  cases route with
  | drawLine => exact atomic_stroke s segment _
  | drawArc direction quadrant => exact atomic_stroke s segment _
  | regionLine => exact atomic_extendContour _ _
  | regionArc direction quadrant => exact atomic_extendContour _ _

/-- A flash that fails leaves no more behind than the variants that it has built. -/
theorem flash_eq_error {s : GraphicsState α} {id : ApertureId} {center : Point α}
    {c : Composer α} {e : Error} (h : c.toLibrary.Chronicled)
    (herror : (flash s id center c).result = .error e) :
    e.isFatal ∨ (flash s id center c).state.builds ≠ c.builds ∨
      (flash s id center c).state = c := by
  rw [flash, Action.gets_bind] at herror ⊢
  split at herror
  · exact .inl (by obtain rfl := Except.error.inj herror; rfl)
  rename_i hopen
  rw [if_neg hopen]
  cases hvariant : (onLibrary (Library.variant s.transform (.ofAperture id)) c).result with
  | error e' =>
      rw [(Action.bind_eq_of_error hvariant).2]
      rcases (h.grown_variant s.transform (.ofAperture id)).eq_or_lt h with hsame | hmore
      · exact .inr (.inr (congrArg (fun lib => { c with toLibrary := lib }) hsame))
      · exact .inr (.inl (Nat.ne_of_gt hmore))
  | ok source =>
      rw [(Action.bind_eq_of_ok hvariant).1] at herror
      cases herror

end Composer

namespace Machine

/-! ### Commands that fail -/

/-- What is left after an error `e` of something that the machine `m` did agrees with `m`, unless
the error is fatal or one of an expression, or variants were built. -/
def Isolated (m : Machine α (Composer α)) (e : Error) (m' : Machine α (Composer α)) : Prop :=
  e.isFatal ∨ (∃ x, e = .expression x) ∨ m'.receiver.builds ≠ m.receiver.builds ∨ m.Agree m'

variable {m : Machine α (Composer α)}

/-- What never fails. -/
theorem ensures_of_ok {P : Machine α (Composer α) → Prop} {a : Action (Machine α (Composer α)) β}
    {E : Error → Machine α (Composer α) → Prop} (h : ∀ m, ∃ b, (a m).result = .ok b) :
    a.Ensures P (fun _ _ => True) E := by
  intro m' _
  obtain ⟨b, hb⟩ := h m'
  rw [hb]
  trivial

/-- A change of the graphics state does not fail. -/
theorem ensures_modifyState {P : Machine α (Composer α) → Prop}
    {f : GraphicsState α → GraphicsState α} {E : Error → Machine α (Composer α) → Prop} :
    (modifyState f).Ensures P (fun _ _ => True) E :=
  ensures_of_ok fun _ => ⟨(), rfl⟩

/-- What leaves nothing that can be told apart, whether or not it fails. -/
theorem ensures_of_keeps_agree {a : Action (Machine α (Composer α)) β}
    (h : Action.Keeps m.Agree a) : a.Ensures m.Agree (fun _ => m.Agree) m.Isolated :=
  h.ensures.weaken (fun _ _ h => h) fun _ _ h => .inr (.inr (.inr h))

/-- A callback that fails is fatal, has built a variant, or has left the receiver as it was. -/
theorem ensures_tell {callback : GraphicsState α → Action (Composer α) Unit}
    (h : ∀ s e, (callback s m.receiver).result = .error e → e.isFatal ∨
      (callback s m.receiver).state.builds ≠ m.receiver.builds ∨
        (callback s m.receiver).state = m.receiver) :
    (tell callback).Ensures m.Agree (fun _ _ => True) m.Isolated := by
  intro m' hm
  have hresult : (tell callback m').result = (callback m'.state m.receiver).result := by
    rw [hm.receiver]
    rfl
  have hstate : (tell callback m').state =
      { m' with receiver := (callback m'.state m.receiver).state } := by
    rw [hm.receiver]
    rfl
  rw [hresult, hstate]
  cases herror : (callback m'.state m.receiver).result with
  | ok _ => trivial
  | error e =>
      rcases h m'.state e herror with hfatal | hbuilds | hkept
      · exact .inl hfatal
      · exact .inr (.inr (.inl hbuilds))
      · exact .inr (.inr (.inr { hm with receiver := hkept.symm }))

/-- An atomic callback that fails has left the receiver as it was. -/
theorem ensures_tell_of_atomic {callback : GraphicsState α → Action (Composer α) Unit}
    (h : ∀ s, (callback s).Atomic) :
    (tell callback).Ensures m.Agree (fun _ _ => True) m.Isolated :=
  ensures_tell fun s e he => .inr (.inr (h s m.receiver e he))

/-- What is selected but cannot be flashed is fatal. -/
theorem isFatal_of_ofResolved {resolved : Resolved α} {e : Error}
    (h : FlashTarget.ofResolved resolved = .error e) : e.isFatal := by
  cases resolved with
  | block b => cases h
  | aperture d =>
      unfold FlashTarget.ofResolved FlashTarget.ofDefinition at h
      dsimp only at h
      split at h
      all_goals cases h
      rfl

/-- Nothing but an aperture without geometry is refused by a selection. -/
theorem ensures_select {P : Machine α (Composer α) → Prop} (id : ApertureId) :
    (select id : Action (Machine α (Composer α)) Unit).Ensures P (fun _ _ => True)
      fun e _ => e.isFatal := by
  refine Action.Ensures.bind (M := fun _ _ => True) (fun _ _ => trivial) fun _ => ?_
  refine Action.Ensures.bind (M := fun _ _ => True) (fun _ _ => trivial) fun found => ?_
  split
  · rename_i resolved
    refine Action.Ensures.bind (M := fun _ _ => True) (fun m' _ => ?_) fun target _ _ => trivial
    cases htarget : FlashTarget.ofResolved resolved with
    | ok target => trivial
    | error e => exact isFatal_of_ofResolved htarget
  · exact fun _ _ => trivial

/-- To look the selected aperture up anew fails with a fatal error only. -/
theorem ensures_reselect {P : Machine α (Composer α) → Prop} (id : ApertureId) :
    (reselect id : Action (Machine α (Composer α)) Unit).Ensures P (fun _ _ => True)
      fun e _ => e.isFatal := by
  refine Action.Ensures.bind (M := fun _ _ => True) (fun _ _ => trivial) fun selected => ?_
  split
  · exact ensures_select id
  · exact fun _ _ => trivial

variable [Scalar α]

/-- Reading coordinates leaves nothing that can be told apart. -/
theorem keeps_agree_load (c : Coordinates) :
    Action.Keeps m.Agree (onState (GraphicsState.load c)) := by
  intro m' hm
  have hkept : Action.Keeps m.state.Agree (GraphicsState.load c) :=
    GraphicsState.keeps_load (fun _ _ _ h => h.trans ⟨rfl, fun _ => rfl⟩) c
  exact { hm with state := hkept m'.state hm.state }

variable [Legible α]

/-- A draw command that fails is isolated. -/
theorem ensures_draw (c : Coordinates) :
    (draw Composer.receiver c).Ensures m.Agree (fun _ _ => True) m.Isolated := by
  have hsend : Action.Ensures m.Agree
      (do
        let route ← Action.gets (fun m : Machine α (Composer α) => m.route)
        tell fun s => route.send Composer.receiver s s.segment
        modifyState GraphicsState.commit)
      (fun _ _ => True) m.Isolated := by
    refine Action.Ensures.bind (ensures_of_keeps_agree (Action.Keeps.gets _)) fun route => ?_
    refine Action.Ensures.bind (ensures_tell_of_atomic fun s => Composer.atomic_send s _ route)
      fun _ => ?_
    exact ensures_modifyState
  refine Action.Ensures.bind (ensures_of_keeps_agree (keeps_agree_load c)) fun _ => ?_
  refine Action.Ensures.bind (ensures_of_keeps_agree (Action.Keeps.gets _)) fun s => ?_
  dsimp only
  split
  · exact hsend
  · exact Action.Ensures.bind (ensures_of_keeps_agree (Action.Keeps.ofExcept _)) fun _ => hsend

/-- A move that fails is isolated. -/
theorem ensures_move (c : Coordinates) :
    (move Composer.receiver c).Ensures m.Agree (fun _ _ => True) m.Isolated := by
  refine Action.Ensures.bind (ensures_of_keeps_agree (keeps_agree_load c)) fun _ => ?_
  refine Action.Ensures.bind (ensures_of_keeps_agree (Action.Keeps.gets _)) fun inRegion => ?_
  dsimp only
  split
  · exact Action.Ensures.bind (ensures_tell_of_atomic fun s => Composer.atomic_flushContour s)
      fun _ => ensures_modifyState
  · exact ensures_modifyState

/-- A flash that fails is isolated if the machine is settled. -/
theorem ensures_flash (hsettled : m.Settled) (c : Coordinates) :
    (flash Composer.receiver c).Ensures m.Agree (fun _ _ => True) m.Isolated := by
  refine Action.Ensures.bind (ensures_of_keeps_agree (keeps_agree_load c)) fun _ => ?_
  refine Action.Ensures.bind (ensures_of_keeps_agree (Action.Keeps.gets _)) fun s => ?_
  split
  · exact ensures_of_ok fun _ => ⟨_, rfl⟩
  refine Action.Ensures.bind (ensures_of_keeps_agree (Action.Keeps.ofExcept _)) fun resolved => ?_
  refine Action.Ensures.bind (ensures_of_keeps_agree (Action.Keeps.gets _)) fun target => ?_
  split
  · exact (ensures_of_keeps_agree (Action.Keeps.fail _)).weaken (fun _ _ _ => trivial)
      fun _ _ h => h
  · refine Action.Ensures.bind (ensures_tell fun s e he => ?_) fun _ => ensures_modifyState
    exact Composer.flash_eq_error hsettled.2.library he

/-- The definition of an aperture is refused before it changes anything, except for a macro without
a value and for an aperture without geometry that is selected. -/
theorem ensures_defineAperture (d : ApertureDefinition α) :
    (defineAperture Composer.receiver d).Ensures (· = m) (fun _ _ => True) m.Isolated := by
  have hdefine : (onState (GraphicsState.defineAperture d)).Ensures (· = m)
      (fun _ m' => m'.state.HasMacro d) m.Isolated := by
    rintro m' rfl
    have hstep := GraphicsState.ensures_defineAperture d m'.state m'.state rfl
    have hsame : (onState (σ := Composer α) (GraphicsState.defineAperture d) m').result =
        (GraphicsState.defineAperture d m'.state).result := rfl
    rw [hsame]
    cases hresult : (GraphicsState.defineAperture d m'.state).result with
    | ok _ =>
        rw [hresult] at hstep
        exact hstep
    | error e =>
        rw [hresult] at hstep
        exact .inr (.inr (.inr { Agree.refl m' with state := hstep ▸ .refl _ }))
  refine Action.Ensures.bind hdefine fun _ => ?_
  refine Action.Ensures.bind (M := fun _ _ => True) (fun m' hm => ?_) fun _ =>
    (ensures_reselect d.id).weaken (fun _ _ h => h) fun _ _ h => .inl h
  have hstep := Composer.ensures_defineAperture (P := fun _ => True) hm m'.receiver trivial
  have hsame : (tell (fun s => Composer.receiver.apertureDefined s d) m').result =
      (Composer.defineAperture m'.state d m'.receiver).result := rfl
  rw [hsame]
  cases hresult : (Composer.defineAperture m'.state d m'.receiver).result with
  | ok _ => trivial
  | error e =>
      rw [hresult] at hstep
      exact .inr (.inl hstep)

/-- A region that is left without having been entered has no contour, and leaving it changes
nothing. -/
theorem ensures_endRegion (hsettled : m.Settled) :
    (endRegion Composer.receiver).Ensures (· = m) (fun _ _ => True) m.Isolated := by
  rintro m' rfl
  have hresult : (endRegion Composer.receiver m').result =
      (Composer.flushContour m'.state m'.receiver).result := rfl
  have hstate : (endRegion Composer.receiver m').state =
      { m' with
        state := { m'.state with inRegion := false }
        receiver :=
          { (Composer.flushContour m'.state m'.receiver).state with contour := none }
        route := .ofModes m'.state.plotMode m'.state.quadrant false } := rfl
  rw [hresult, hstate]
  cases hflush : (Composer.flushContour m'.state m'.receiver).result with
  | ok _ => trivial
  | error e =>
      have hcontour : m'.receiver.contour = none := Composer.contour_eq_none_of_flushContour hflush
      have hregion : m'.state.inRegion = false := by rw [hsettled.1.contour, hcontour]; rfl
      have hkept := Composer.atomic_flushContour m'.state m'.receiver e hflush
      refine .inr (.inr (.inr ⟨?_, rfl, ?_, ?_, rfl⟩))
      · rw [← hregion]
        exact .refl _
      · rw [hsettled.1.route, hregion]
      · rw [hkept, ← hcontour]

/-- **Commands that fail** are isolated. -/
theorem ensures_perform (hsettled : m.Settled) {c : Command α} (hformat : ∀ f, c ≠ .format f) :
    (perform Composer.receiver c).Ensures (· = m) (fun _ _ => True) m.Isolated := by
  have hagree {a : Action (Machine α (Composer α)) Unit}
      (h : a.Ensures m.Agree (fun _ _ => True) m.Isolated) :
      a.Ensures (· = m) (fun _ _ => True) m.Isolated :=
    h.strengthen fun m' hm => hm ▸ .refl m
  cases c with
  | format f => exact absurd rfl (hformat f)
  | defineAperture d => exact ensures_defineAperture d
  | selectAperture id => exact (ensures_select id).weaken (fun _ _ h => h) fun _ _ h => .inl h
  | draw c => exact hagree (ensures_draw c)
  | move c => exact hagree (ensures_move c)
  | flash c => exact hagree (ensures_flash hsettled c)
  | endRegion => exact ensures_endRegion hsettled
  | unit u | legacyUnit u | defineMacro m | plotMode mode | quadrant q | beginRegion | polarity p
  | mirroring m | rotation degrees | scale factor | «attribute» kind a | deleteAttribute name
  | comment _ | stop | optionalStop | endOfFile => exact ensures_of_ok fun _ => ⟨(), rfl⟩

/-! ### Nodes that fail -/

/-- **Nodes with a body** fail only with fatal errors, unless errors are raised: their frames do not
fail, and the nodes of the body are skipped. -/
theorem isFatal_of_visit_enclose {options : Options} (hmode : options.errorMode ≠ .raise)
    (frame : Frame α) {body : List (Node α)} {e : Error}
    (h : (visit Composer.receiver options (frame.enclose body) m).result = .error e) :
    e.isFatal := by
  have hentered := (above_enter (.base (.refl m.receiver)) body frame).1
  rw [visit_enclose, (Action.bind_eq_of_ok hentered).1, (enclosed_eq _ _ _).2] at h
  cases hbody : (visitAll Composer.receiver options body
      (enter Composer.receiver body frame m).state).result with
  | error e' =>
      rw [hbody] at h
      obtain rfl : e' = e := Except.error.inj h
      exact isFatal_of_visitAll hmode hbody
  | ok flow =>
      have hclosed : ∀ restored : GraphicsState α, (tell (closing Composer.receiver body frame)
          { (visitAll Composer.receiver options body
            (enter Composer.receiver body frame m).state).state with state := restored }).result =
          .ok () := closing_eq_ok options body frame m
      rw [hbody] at h
      dsimp only [Except.bind] at h
      rw [hclosed] at h
      cases h

/-- **Nodes that fail** are isolated, unless errors are raised. -/
theorem isolated_of_visit {options : Options} (hmode : options.errorMode ≠ .raise)
    (hsettled : m.Settled) {node : Node α} (hformat : ∀ c ∈ node.commands, ∀ f, c ≠ .format f)
    {e : Error} (h : (visit Composer.receiver options node m).result = .error e) :
    m.Isolated e (visit Composer.receiver options node m).state := by
  cases node with
  | command c =>
      have hstep := ensures_perform hsettled (hformat c (by simp [Node.commands])) m rfl
      rw [visit] at h ⊢
      cases hperform : (perform Composer.receiver c m).result with
      | ok _ =>
          rw [(Action.bind_eq_of_ok hperform).1] at h
          cases h
      | error e' =>
          obtain ⟨hresult, hstate⟩ := Action.bind_eq_of_error
            (f := fun _ => (pure (stops options c) : Action (Machine α (Composer α)) Flow)) hperform
          obtain rfl : e' = e := Except.error.inj (hresult.symm.trans h)
          rw [hperform] at hstep
          rw [hstate]
          exact hstep
  | block id body => exact .inl (isFatal_of_visit_enclose hmode (.block id) h)
  | stepRepeat grid body =>
      exact .inl (isFatal_of_visit_enclose hmode (.stepRepeat grid) h)

end Machine

end Photoplot
