import Photoplot.Proofs.Recoloring

/-!
# Pictures up to Colors

What is drawn where does not depend on polarities, and remarks have no part in it at all. A program
and its essence make pictures of the same layers in the same order, with the same bounding boxes and
the same shapes and pastes. Pastes, strokes and regions have other colors; the shapes of stencils,
whose polarities come from templates and macros, do not.

## Main definitions

* `Composer.Recolors`, `Ledger.Recolors`: the second composer or ledger has other colors.
* `uncolored`: the outcome of a program without the polarities of pastes, strokes and regions.

## Main results

* `Ledger.recolors_receiver`: the composer is indifferent to colors, callback by callback.
* `result_compile_essence`: the outcome of the essence of a program is that of the program in other
  colors.
* `compile_congr_essence`: programs with the same essence have the same outcome up to colors.
-/

namespace Photoplot

variable {α : Type} {ρ : Polarity → Polarity} {stencil : Bool}

/-! ### The composer -/

namespace Composer

/-- The width of a stroke does not depend on colors. -/
theorem strokeWidth_recolor {σ : Type} [Scalar α] {s s' : GraphicsState α} (h : s.Recolors ρ s')
    (start stop : Point α) :
    (strokeWidth s start stop : Action σ (Option α)) = strokeWidth s' start stop := by
  refine Eq.trans ?_ (strokeWidth_congr h.agree start stop)
  rw [strokeWidth, strokeWidth, h.current_agree]
  rfl

variable {L : Library α → Library α → Prop} {s s' : GraphicsState α}

/-- The second composer has other colors, and their libraries are related. -/
structure Recolors (ρ : Polarity → Polarity) (L : Library α → Library α → Prop)
    (c c' : Composer α) : Prop where
  library : L c.toLibrary c'.toLibrary
  top : c'.top = c.top.recolor ρ false
  below : c'.below = c.below.map (Layer.recolor ρ false)
  contour : c'.contour = c.contour
  stepRepeats : c'.stepRepeats = c.stepRepeats

/-- In the beginning composers have no colors to differ in. -/
theorem recolors_initial (h : L .empty .empty) :
    Recolors ρ L (initial : Composer α) initial where
  library := h
  top := (Layer.empty_recolor _).symm
  below := rfl
  contour := rfl
  stepRepeats := rfl

/-- The top layer is drawn on in the colors of each side. -/
theorem couples_draw {f f' : Layer α → Layer α}
    (h : ∀ l, f' (l.recolor ρ false) = (f l).recolor ρ false) :
    Action.Couples (Recolors ρ L) (draw f) (draw f') :=
  .modify fun _ _ hc => { hc with top := by rw [hc.top, h] }

/-- A body is begun on both sides. -/
theorem couples_begin (id : LayerId) :
    Action.Couples (Recolors ρ L) (begin id : Action (Composer α) Unit) (begin id) :=
  .modify fun _ _ hc => { hc with
    top := (Layer.empty_recolor _).symm
    below := by rw [hc.top, hc.below, List.map_cons] }

/-- The same contour is set in both composers. -/
theorem couples_setContour {f : Composer α → Option (Contour α)}
    (h : ∀ c c', Recolors ρ L c c' → f c' = f c) :
    Action.Couples (Recolors ρ L) (Action.modify fun c => { c with contour := f c })
      (Action.modify fun c => { c with contour := f c }) :=
  .modify fun _ _ hc => { hc with contour := h _ _ hc }

/-- Edges are added on both sides. -/
theorem couples_extendContour (start : Point α) (edges : List (Edge α)) :
    Action.Couples (Recolors ρ L) (extendContour start edges) (extendContour start edges) := by
  refine Action.Refines.gets_bind (M := Eq) (fun c c' hc => by rw [hc.contour])
    fun isNone isNone' hisNone => ?_
  rw [hisNone]
  dsimp only
  split
  · exact .fail fun _ _ hc => hc
  · exact couples_setContour fun _ _ hc => by rw [hc.contour]

/-- The body of a step-and-repeat is begun on both sides. -/
theorem couples_beginStepRepeat :
    Action.Couples (Recolors ρ L) (beginStepRepeat : Action (Composer α) Unit)
      beginStepRepeat := by
  refine Action.Refines.bind (M := fun _ => Recolors ρ L)
    (.modify fun _ _ hc => { hc with stepRepeats := by rw [hc.stepRepeats] }) fun _ => ?_
  refine Action.Refines.gets_bind (M := Eq) (fun _ _ hc => hc.stepRepeats.symm) fun number _ => ?_
  rintro rfl
  exact couples_begin _

variable [Scalar α]

/-- A stroke is drawn in the color of each side. -/
theorem couples_stroke (h : s.Recolors ρ s') (segment : Segment α)
    (strokes : α → List (Geometry α)) :
    Action.Couples (Recolors ρ L) (stroke s segment strokes) (stroke s' segment strokes) := by
  unfold stroke
  rw [← strokeWidth_recolor h, h.transform]
  refine Action.Refines.bind (refines_strokeWidth s _ _) fun width => ?_
  cases width with
  | none => exact .pure fun _ _ hc => hc
  | some width =>
      refine couples_draw fun l => ?_
      rw [Layer.append_recolor]
      simp [strokeShapes, Item.recolor, Shape.recolor, Transform.recolor, Function.comp_def]

/-- The polygon of a contour is drawn in the color of each side. -/
theorem couples_flushContour (h : s.Recolors ρ s') :
    Action.Couples (Recolors ρ L) (flushContour s) (flushContour s') := by
  refine Action.Refines.gets_bind (M := Eq) (fun c c' hc => hc.contour.symm) fun contour _ => ?_
  rintro rfl
  cases contour with
  | none => exact .fail fun _ _ hc => hc
  | some contour =>
      refine Action.Refines.bind (M := fun _ => Recolors ρ L)
        (.inside (fun _ _ _ hc => hc) fun _ _ hc => hc) fun outline => ?_
      refine Action.Refines.bind (couples_setContour fun _ _ _ => rfl) fun _ => ?_
      cases outline with
      | none => exact .pure fun _ _ hc => hc
      | some outline =>
          refine couples_draw fun l => ?_
          rw [h.transform]
          exact (Layer.push_recolor l (.shape (Contour.fill outline s.transform.polarity))).symm

/-- A region ends on both sides. -/
theorem couples_endRegion [Legible α] (h : s.Recolors ρ s') :
    Action.Couples (Recolors ρ L) (receiver.endRegion s) (receiver.endRegion s') := by
  have hleave (result : Except Error Unit) : Action.Couples (Recolors (α := α) ρ L)
      (do
        Action.modify fun c => { c with contour := none }
        Action.ofExcept result)
      (do
        Action.modify fun c => { c with contour := none }
        Action.ofExcept result) :=
    Action.Refines.bind (couples_setContour fun _ _ _ => rfl) fun _ =>
      .ofExcept (fun _ _ _ _ hc => hc) fun _ _ hc => hc
  exact Action.Refines.attempt_bind (couples_flushContour h) (fun _ => hleave _)
    (fun _ => hleave _) fun _ => False.elim

/-- Copies of a body are recolored like the body. -/
theorem foldl_appendTranslated_recolor (l body : Layer α) (offsets : List (Point α)) :
    (offsets.foldl (fun l offset => l.appendTranslated body offset) l).recolor ρ stencil =
      offsets.foldl (fun l offset => l.appendTranslated (body.recolor ρ stencil) offset)
        (l.recolor ρ stencil) := by
  induction offsets generalizing l with
  | nil => rfl
  | cons offset rest ih =>
      rw [List.foldl_cons, List.foldl_cons, ih, Layer.appendTranslated_recolor]

/-- The copies of a body are drawn on both sides. -/
theorem couples_endStepRepeat (grid : Grid α) (body body' : List (Node α)) :
    Action.Couples (Recolors ρ L) (endStepRepeat ⟨grid, body⟩)
      (endStepRepeat ⟨grid, body'⟩) := by
  intro c c' hc
  have hbelow' := hc.below
  rw [endStepRepeat, endStepRepeat, Action.get_bind, Action.get_bind, hc.stepRepeats]
  cases hbelow : c.below with
  | nil =>
      rw [hbelow, List.map_nil] at hbelow'
      rw [hbelow']
      exact .inr ⟨rfl, hc⟩
  | cons parent rest =>
      rw [hbelow, List.map_cons] at hbelow'
      rw [hbelow', hc.top]
      exact .inr ⟨rfl, { hc with
        top := (foldl_appendTranslated_recolor parent c.top (offsets grid)).symm
        below := rfl }⟩

/-- A body becomes the layer of its block on both sides. -/
theorem couples_endBlock [Legible α] (hL : Library.Indifferent ρ L) (id : ApertureId)
    (body body' : List (Node α)) :
    Action.Couples (Recolors ρ L) (endBlock ⟨id, body⟩ : Action (Composer α) Unit)
      (endBlock ⟨id, body'⟩) := by
  intro c c' hc
  have hbelow' := hc.below
  rw [endBlock, endBlock, Action.get_bind, Action.get_bind]
  cases hbelow : c.below with
  | nil =>
      rw [hbelow, List.map_nil] at hbelow'
      rw [hbelow']
      exact .inr ⟨rfl, hc⟩
  | cons parent rest =>
      rw [hbelow, List.map_cons] at hbelow'
      rw [hbelow', hc.top]
      dsimp only
      by_cases hid : c.top.id = LayerId.ofAperture id
      · rw [if_pos hid, if_pos (c.top.id_recolor.trans hid)]
        have hpop : Action.Couples (Recolors ρ L)
            (Action.modify fun c : Composer α => { c with top := parent, below := rest })
            (Action.modify fun c => { c with
              top := parent.recolor ρ false
              below := rest.map (Layer.recolor ρ false) }) :=
          .modify fun _ _ hc => { hc with top := rfl, below := rfl }
        have hdefine : Action.Couples (Recolors ρ L) (revise (.define c.top))
            (revise (.define (c.top.recolor ρ false))) :=
          .modify fun _ _ hc => { hc with library := hL.define c.top hc.library }
        exact hpop.bind (fun _ => hdefine) c c' hc
      · rw [if_neg hid, if_neg fun h => hid (c.top.id_recolor.symm.trans h)]
        exact .inr ⟨rfl, hc⟩

/-- A flash pastes the same layer in the color of each side. -/
theorem couples_flash [Legible α] (hL : Library.Indifferent ρ L) (h : s.Recolors ρ s')
    (id : ApertureId) (center : Point α) :
    Action.Couples (Recolors ρ L) (flash s id center) (flash s' id center) := by
  refine Action.Refines.gets_bind (M := Eq) (fun c c' hc => ?_) fun isOpen _ => ?_
  · rw [stack, stack, hc.top, hc.below, ← List.map_cons, ← List.map_reverse, List.any_map]
    rfl
  rintro rfl
  split
  · exact .fail fun _ _ hc => hc
  rw [h.transform]
  have hvariant : Action.Couples (Recolors ρ L)
      (onLibrary (Library.variant s.transform (.ofAperture id)))
      (onLibrary (Library.variant (s.transform.recolor ρ) (.ofAperture id))) :=
    Action.refines_of_ends fun c c' hc =>
      have hstep := Action.Refines.ends (hL.variant _ _) hc.library
      ⟨hstep.1, { hc with library := hstep.2 }⟩
  refine Action.Refines.bind hvariant fun source => couples_draw fun l => ?_
  exact (Layer.push_recolor l (.paste ⟨source, center, s.transform.polarity⟩)).symm

/-- The shapes of an aperture do not depend on the colors set. -/
theorem apertureShapes_recolor {σ : Type} (h : s.Recolors ρ s') (template : Template α) :
    (apertureShapes s template : Action σ (Option (List (Shape α)))) =
      apertureShapes s' template := by
  unfold apertureShapes
  rw [h.macros]

/-- The definition of an aperture makes the next revision, which defines a stencil. -/
theorem recolors_defineAperture [Legible α] {made : List Nat} (h : s.Recolors ρ s')
    (d : ApertureDefinition α) (number : Nat) :
    Action.Refines (fun _ => False)
      (fun c c' => Recolors ρ (Library.Recolors ρ made) c c' ∧ c.history.length = number)
      (defineAperture s d) (defineAperture s' d)
      (fun _ => Recolors ρ (Library.Recolors ρ (number :: made)))
      (Recolors ρ (Library.Recolors ρ made)) := by
  unfold defineAperture
  rw [← apertureShapes_recolor h]
  refine Action.Refines.bind ((refines_apertureShapes s d.template).weaken (fun _ _ _ h => h)
    fun _ _ h => h.1) fun shapes => ?_
  cases shapes with
  | none =>
      refine .modify ?_
      rintro c c' ⟨hc, rfl⟩
      exact { hc with library := hc.library.remove _ }
  | some shapes =>
      refine .modify ?_
      rintro c c' ⟨hc, rfl⟩
      exact { hc with library := hc.library.defineStencil (Layer.ofItems_shapes_recolor _ _) }

/-- The composer is indifferent to colors wherever it is not told of the definition of an aperture,
if what it does to its library is. -/
theorem recolors_callbacks [Legible α] (hL : Library.Indifferent ρ L) :
    { (receiver : Receiver α (Composer α)) with
      apertureDefined := fun _ _ => pure () }.Recolors ρ (Recolors ρ L) where
  apertureDefined _ _ := .pure fun _ _ hc => hc
  beginBlock id _ _ _ := couples_begin (.ofAperture id)
  endBlock id body body' _ := couples_endBlock hL id body body'
  beginStepRepeat _ _ _ _ := couples_beginStepRepeat
  endStepRepeat grid body body' _ := couples_endStepRepeat grid body body'
  flash id _ _ center h := couples_flash hL h id center
  send segment route h := by
    cases route with
    | drawLine => exact couples_stroke h segment _
    | drawArc => exact couples_stroke h segment _
    | regionLine => exact couples_extendContour _ _
    | regionArc => exact couples_extendContour _ _
  beginRegion _ := couples_setContour fun _ _ _ => rfl
  flushRegion h := couples_flushContour h
  endRegion h := couples_endRegion h
  endOfFile _ := couples_setContour fun _ _ _ => rfl

end Composer

/-! ### The ledger -/

namespace Ledger

variable [Legible α]

/-- The second ledger has other colors, except in its stencils. -/
structure Recolors (ρ : Polarity → Polarity) (l l' : Ledger α) : Prop where
  made : l'.made = l.made
  composer : Composer.Recolors ρ (Library.Recolors ρ l.made) l.toComposer l'.toComposer

/-- In the beginning ledgers have no colors to differ in. -/
theorem recolors_initial : Recolors ρ (initial : Ledger α) initial :=
  ⟨rfl, Composer.recolors_initial Library.recolors_empty⟩

/-- A composer does the same with a ledger as without. -/
theorem couples_onComposer {β : Type} {a b : Action (Composer α) β}
    (h : ∀ made, Action.Couples (Composer.Recolors ρ (Library.Recolors ρ made)) a b) :
    Action.Couples (Recolors ρ) (onComposer a) (onComposer b) :=
  Action.refines_of_ends fun _ _ hl =>
    have hstep := (h _).ends hl.composer
    ⟨hstep.1, hl.made, hstep.2⟩

/-- A revision that is noted. -/
theorem couples_noting {a b : Action (Composer α) Unit}
    (h : ∀ made number, Action.Refines (fun _ => False)
      (fun c c' => Composer.Recolors ρ (Library.Recolors ρ made) c c' ∧ c.history.length = number)
      a b (fun _ => Composer.Recolors ρ (Library.Recolors ρ (number :: made)))
      (Composer.Recolors ρ (Library.Recolors ρ made))) :
    Action.Couples (Recolors ρ) (noting a) (noting b) := by
  intro l l' hl
  rw [noting, noting, Action.gets_bind, Action.gets_bind, hl.composer.library.length_history]
  have hmake : Action.Refines (fun _ => False) (fun k k' => k = l ∧ k' = l') (onComposer a)
      (onComposer b)
      (fun _ k k' => k'.made = k.made ∧
        Composer.Recolors ρ (Library.Recolors ρ (l.history.length :: k.made)) k.toComposer
          k'.toComposer)
      (Recolors ρ) := by
    refine .of_steps ?_
    rintro l l' ⟨rfl, rfl⟩
    rcases h l.made _ _ _ ⟨hl.composer, rfl⟩ with ⟨_, -, hdoomed⟩ | ⟨hresult, hstep⟩
    · exact hdoomed.elim
    refine ⟨hresult, ?_⟩
    have hsame : (onComposer a l).result = (a l.toComposer).result := rfl
    rw [hsame]
    cases hr : (a l.toComposer).result <;> rw [hr] at hstep <;> exact ⟨hl.made, hstep⟩
  have hnote := hmake.bind (f := fun _ => Action.modify fun k =>
      { k with made := l.history.length :: k.made }) (g := fun _ => Action.modify fun k =>
      { k with made := l.history.length :: k.made }) (Q := fun _ => Recolors ρ) fun _ =>
    .modify fun k k' hk => ⟨congrArg (l.history.length :: ·) hk.1, hk.2⟩
  exact hnote l l' ⟨rfl, rfl⟩

variable [Scalar α]

/-- **The composer** is indifferent to colors. -/
theorem recolors_receiver : (receiver : Receiver α (Ledger α)).Recolors ρ (Recolors ρ) :=
  have callbacks (made : List Nat) :
      { (Composer.receiver : Receiver α (Composer α)) with
        apertureDefined := fun _ _ => pure () }.Recolors ρ
          (Composer.Recolors ρ (Library.Recolors ρ made)) :=
    Composer.recolors_callbacks Library.indifferent_recolors
  { apertureDefined := fun d h =>
      couples_noting fun _ number => Composer.recolors_defineAperture h d number
    beginBlock := fun id body body' h =>
      couples_onComposer fun made => (callbacks made).beginBlock id body body' h
    endBlock := fun id body body' h =>
      couples_onComposer fun made => (callbacks made).endBlock id body body' h
    beginStepRepeat := fun grid body body' h =>
      couples_onComposer fun made => (callbacks made).beginStepRepeat grid body body' h
    endStepRepeat := fun grid body body' h =>
      couples_onComposer fun made => (callbacks made).endStepRepeat grid body body' h
    flash := fun id target target' center h =>
      couples_onComposer fun made => (callbacks made).flash id target target' center h
    send := fun segment route h => by
      have hsend (made : List Nat) := (callbacks made).send segment route h
      cases route <;> exact couples_onComposer hsend
    beginRegion := fun h => couples_onComposer fun made => (callbacks made).beginRegion h
    flushRegion := fun h => couples_onComposer fun made => (callbacks made).flushRegion h
    endRegion := fun h => couples_onComposer fun made => (callbacks made).endRegion h
    endOfFile := fun h => couples_onComposer fun made => (callbacks made).endOfFile h }

end Ledger

/-! ### Programs -/

variable [Scalar α] [Legible α]

/-- A program and its essence are run alike for the ledger. -/
theorem recolors_run (hdark : ρ .dark = .dark) (options : Options) (nodes : List (Node α)) :
    let run := (Machine.run Ledger.receiver options nodes).run (.initial .initial)
    let run' := (Machine.run Ledger.receiver options (Node.essenceOf ρ nodes)).run
      (.initial .initial)
    run.result = run'.result ∧ Machine.Recolors ρ (Ledger.Recolors ρ) run.state run'.state :=
  (Machine.couples_run Ledger.recolors_receiver options nodes).ends
    (Machine.recolors_initial hdark Ledger.recolors_initial)

/-- The essence of a program leads to a ledger in other colors. -/
theorem recolors_ledger (hdark : ρ .dark = .dark) (options : Options) (nodes : List (Node α)) :
    (ledger options nodes).Recolors ρ (ledger options (Node.essenceOf ρ nodes)) :=
  (recolors_run hdark options nodes).2.receiver

/-- The essence of a program has the same stencils. -/
theorem stencils_essence (hdark : ρ .dark = .dark) (options : Options) (nodes : List (Node α)) :
    stencils options (Node.essenceOf ρ nodes) = stencils options nodes := by
  have hledger := recolors_ledger hdark options nodes
  funext id
  rw [stencils, stencils, hledger.made, ← Library.isStencil_outline,
    hledger.composer.library.history, Library.isStencil_outline]

/-- All layers of the essence of a program have other colors. -/
theorem recolors_allLayers (hdark : ρ .dark = .dark) (options : Options)
    (nodes : List (Node α)) :
    LayerTable.Recolors ρ (stencils options nodes) (composed options nodes).allLayers
      (composed options (Node.essenceOf ρ nodes)).allLayers := by
  have hcomposer := (recolors_ledger hdark options nodes).composer
  obtain ⟨-, hplain, -⟩ := run_ledger options nodes
  obtain ⟨-, hplain', -⟩ := run_ledger options (Node.essenceOf ρ nodes)
  have hid : (composed options nodes).main.id = .main := (chronicled_composed options nodes).main_id
  have hmain : (composed options (Node.essenceOf ρ nodes)).main =
      (composed options nodes).main.recolor ρ false := by
    rw [← hplain, ← hplain', Composer.main, Composer.main, hcomposer.below, hcomposer.top,
      List.getLast?_map]
    cases (ledger options nodes).below.getLast? <;> rfl
  have hlayers := hcomposer.library.layers
  rw [hplain, hplain'] at hlayers
  rw [Composer.allLayers, Composer.allLayers, hmain, Layer.id_recolor]
  refine hlayers.insert ?_ fun other hother => ?_
  · rw [stencils, hid]
    rfl
  · rw [stencils, bne_iff_ne.mpr (hid ▸ hother.symm), Bool.true_and, hplain]

/-- **The picture of the essence** of a program has the same layers, bounding boxes, shapes and
pastes. The shapes of stencils have the same colors, and all others are recolored. -/
theorem result_compile_essence (hdark : ρ .dark = .dark) (options : Options)
    (nodes : List (Node α)) :
    ((compile options (Node.essenceOf ρ nodes)).run ()).result =
      ((compile options nodes).run ()).result.map fun made =>
        (made.1.recolor ρ (stencils options nodes), made.2) := by
  obtain ⟨hresult, hstate⟩ := recolors_run hdark options nodes
  obtain ⟨hplain, -, hdiagnostics⟩ := run_ledger options nodes
  obtain ⟨hplain', -, hdiagnostics'⟩ := run_ledger options (Node.essenceOf ρ nodes)
  rw [result_compile, result_compile, ← hplain, ← hplain', ← hdiagnostics, ← hdiagnostics',
    Picture.ofLayers_recolor (recolors_allLayers hdark options nodes)]
  rw [hresult, hstate.diagnostics]
  cases ((Machine.run Ledger.receiver options (Node.essenceOf ρ nodes)).run
    (.initial .initial)).result with
  | error e => rfl
  | ok _ => cases Picture.ofLayers (composed options nodes).allLayers <;> rfl

/-- The outcome of a program without the polarities of its pastes, strokes and regions. -/
def uncolored (options : Options) (nodes : List (Node α)) :
    Except Error (Picture α × List Diagnostic) :=
  ((compile options nodes).run ()).result.map fun made =>
    (made.1.recolor Polarity.forget (stencils options nodes), made.2)

/-- **What pictures do not depend on.** Programs that are the same without their remarks and without
the operands of their polarities have the same stencils and, up to the polarities of pastes, strokes
and regions, the same outcome: the same error, or a picture of the same layers with the same boxes,
shapes and pastes. With the operands of polarities the outcomes are equal. -/
theorem compile_congr_essence (options : Options) (nodes nodes' : List (Node α)) :
    (Node.essenceOf Polarity.forget nodes = Node.essenceOf Polarity.forget nodes' →
      stencils options nodes = stencils options nodes' ∧
        uncolored options nodes = uncolored options nodes') ∧
    (Node.essenceOf id nodes = Node.essenceOf id nodes' →
      ((compile options nodes).run ()).result = ((compile options nodes').run ()).result) := by
  constructor
  · intro h
    have hdark : Polarity.forget .dark = .dark := rfl
    constructor
    · rw [← stencils_essence hdark options nodes, h, stencils_essence hdark]
    · rw [uncolored, uncolored, ← result_compile_essence hdark, h, result_compile_essence hdark]
  · intro h
    have hsame (nodes : List (Node α)) :
        ((compile options (Node.essenceOf id nodes)).run ()).result =
          ((compile options nodes).run ()).result := by
      rw [result_compile_essence (show id Polarity.dark = .dark from rfl)]
      simp only [Picture.recolor_id]
      cases ((compile options nodes).run ()).result <;> rfl
    rw [← hsame nodes, h, hsame]

/-! ### A program in two colors -/

/-- A program whose layers are a chain of pastes is compiled if it is run to its end. -/
theorem exists_compile_of_isChain {options : Options} {nodes : List (Node α)} {rest : List LayerId}
    (hrun : ((Machine.run Composer.receiver options nodes).run (.initial .initial)).result.isOk)
    (hchain : (composed options nodes).allLayers.IsChain (.main :: rest))
    (hnodup : (LayerId.main :: rest).Nodup) :
    ∃ picture diagnostics, ((compile options nodes).run ()).result = .ok (picture, diagnostics) ∧
      picture.layer? .main =
        some ((composed options nodes).main.items.toList.map DrawCommand.ofItem) := by
  have horder := LayerTable.order_of_isChain hchain hnodup
  obtain ⟨picture, hpicture⟩ := Picture.exists_ofLayers horder
  refine ⟨picture, _, compile_eq_ok_iff.mpr ⟨Action.eq_ok_of_isOk hrun, hpicture, rfl⟩, ?_⟩
  refine (Picture.layer?_eq_some_iff hpicture).mpr ⟨.refl, _, ?_, rfl⟩
  rw [Composer.allLayers, LayerTable.lookup_insert,
    if_pos (chronicled_composed options nodes).main_id]

/-- An aperture with a hole, pasted by a block that is pasted in turn, with the same remarks in many
places and in one polarity. -/
def remarked (remarks : List (Node Float)) (p : Polarity) : List (Node Float) :=
  let noCoordinates : Coordinates := ⟨none, none, none, none⟩
  remarks ++
    [.command (.defineAperture ⟨⟨"D10"⟩, .circle ⟨2, some 1⟩⟩),
      .block ⟨"D11"⟩ (remarks ++
        [.command (.polarity p), .command (.selectAperture ⟨"D10"⟩),
          .command (.flash noCoordinates)])] ++
    remarks ++
    [.command (.selectAperture ⟨"D11"⟩), .command (.polarity p), .command (.flash noCoordinates)]

/-- Remarks of several kinds. -/
def someRemarks : List (Node Float) :=
  [.command (.unit .imperial), .command (.attribute .object ⟨".N", ["GND"]⟩),
    .command (.comment "ground"), .command (.deleteAttribute none)]

/-- The program is compiled, and its main layer pastes the block in the polarity of the program. -/
theorem compile_remarked :
    (∃ picture diagnostics,
      ((compile {} (remarked someRemarks .clear)).run ()).result = .ok (picture, diagnostics) ∧
        picture.layer? .main = some [.paste ⟨⟨"D11"⟩, ⟨0, 0⟩, .clear⟩]) ∧
    ∃ picture diagnostics,
      ((compile {} (remarked [] .dark)).run ()).result = .ok (picture, diagnostics) ∧
        picture.layer? .main = some [.paste ⟨⟨"D11"⟩, ⟨0, 0⟩, .dark⟩] := by
  have hchain : (composed {} (remarked someRemarks .clear)).allLayers.IsChain
      [.main, ⟨"D11"⟩, ⟨"D10"⟩] :=
    ⟨by decide +kernel, by decide +kernel, by decide +kernel, trivial⟩
  have hchain' : (composed {} (remarked [] .dark)).allLayers.IsChain [.main, ⟨"D11"⟩, ⟨"D10"⟩] :=
    ⟨by decide +kernel, by decide +kernel, by decide +kernel, trivial⟩
  obtain ⟨picture, diagnostics, hcompile, hmain⟩ :=
    exists_compile_of_isChain (by decide +kernel) hchain (by decide)
  obtain ⟨picture', diagnostics', hcompile', hmain'⟩ :=
    exists_compile_of_isChain (by decide +kernel) hchain' (by decide)
  refine ⟨⟨picture, diagnostics, hcompile, hmain.trans ?_⟩, picture', diagnostics', hcompile',
    hmain'.trans ?_⟩
  · decide +kernel
  · decide +kernel

/-- Without remarks the outcome is the same, and in the other polarity it is the same up to colors.
The aperture is a stencil, so its hole stays. -/
theorem compile_congr_essence_remarked :
    stencils {} (remarked [] .dark) ⟨"D10"⟩ = true ∧
      uncolored {} (remarked someRemarks .clear) = uncolored {} (remarked [] .dark) ∧
      ((compile {} (remarked someRemarks .clear)).run ()).result =
        ((compile {} (remarked [] .clear)).run ()).result ∧
      ((compile {} (remarked someRemarks .clear)).run ()).result ≠
        ((compile {} (remarked [] .dark)).run ()).result := by
  have hforget : Node.essenceOf Polarity.forget (remarked someRemarks .clear) =
      Node.essenceOf Polarity.forget (remarked [] .dark) := rfl
  have hremarks : Node.essenceOf id (remarked someRemarks .clear) =
      Node.essenceOf id (remarked [] .clear) := rfl
  refine ⟨by decide +kernel, ((compile_congr_essence {} _ _).1 hforget).2,
    (compile_congr_essence {} _ _).2 hremarks, ?_⟩
  obtain ⟨⟨picture, diagnostics, hcompile, hmain⟩, picture', diagnostics', hcompile', hmain'⟩ :=
    compile_remarked
  rw [hcompile, hcompile']
  intro hsame
  obtain ⟨rfl, -⟩ := Prod.mk.inj (Except.ok.inj hsame)
  rw [hmain] at hmain'
  exact absurd hmain' (by decide +kernel)

end Photoplot
