import Photoplot.Composer
import Photoplot.Proofs.Simulation

/-!
# What the Composer Keeps

Strokes and contours add shapes to the top layer and nothing else, so most callbacks keep whatever
is not changed by that (`Composer.Steady`). The others change the library by revisions and by asking
for variants, and they never rename the main layer, which stays at the bottom of the stack. So what
revisions and variants keep of a library holds of the library after every run.

## Main definitions

* `Composer.Steady`: a property that drawing shapes and editing the contour keep.
* `Composer.Tied`: the library has a property, and the main layer has its name.

## Main results

* `Composer.Steady.keeps_send`, `Composer.Steady.keeps_flushContour`: strokes and contours keep
  what is steady.
* `Composer.keeps_receiver`: the callbacks keep what revisions and variants keep.
-/

namespace Photoplot.Composer

variable {α : Type}

/-- A property of composers is **steady** when it is kept by drawing shapes into the top layer and
by editing the contour, without opening or closing it. -/
structure Steady (P : Composer α → Prop) : Prop where
  shapes (c : Composer α) (shapes : List (Shape α)) :
    P c → P { c with top := c.top.append (shapes.map .shape) }
  contour (c : Composer α) (contour : Option (Contour α)) :
    contour.isSome = c.contour.isSome → P c → P { c with contour }

/-- A composer whose library has a property and whose main layer has its name. -/
structure Tied (I : Library α → Prop) (c : Composer α) : Prop where
  library : I c.toLibrary
  main_id : c.main.id = .main

/-! ### The main layer -/

/-- The main layer is on top when there is no layer below. -/
theorem main_of_below_nil {c : Composer α} (h : c.below = []) : c.main = c.top := by
  rw [main, h]
  rfl

/-- The main layer is the lowest one when there are layers below. -/
theorem main_of_below_cons {c : Composer α} {parent : Layer α} {rest : List (Layer α)}
    (h : c.below = parent :: rest) : c.main = rest.getLast?.getD parent := by
  rw [main, h, List.getLast?_cons]
  rfl

/-- Only the id of the top layer matters for the name of the main layer. -/
theorem id_main_congr {c c' : Composer α} (htop : c'.top.id = c.top.id)
    (hbelow : c'.below = c.below) : c'.main.id = c.main.id := by
  rw [main, main, hbelow]
  cases c.below.getLast? with
  | none => exact htop
  | some _ => rfl

variable {I : Library α → Prop}

/-- In the beginning the library is empty and the main layer has its name. -/
theorem tied_initial (h : I .empty) : Tied I (initial : Composer α) := ⟨h, rfl⟩

/-! ### Strokes and contours -/

section Steady

variable {P : Composer α → Prop}

/-- Edges keep what is steady. -/
theorem Steady.keeps_extendContour (h : Steady P) (start : Point α) (edges : List (Edge α)) :
    Action.Keeps P (extendContour start edges) := by
  refine Action.Keeps.bind (Action.Keeps.gets _) fun isNone => ?_
  split
  · exact Action.Keeps.fail _
  · exact Action.Keeps.modify fun c => h.contour c _ (by simp)

variable [Scalar α]

/-- The width of a stroke does not depend on the state of the receiver. -/
theorem refines_strokeWidth {σ τ : Type} {doomed : Error → Prop} {R : σ → τ → Prop}
    (s : GraphicsState α) (start stop : Point α) :
    Action.Refines doomed R (strokeWidth s start stop) (strokeWidth s start stop) (fun _ => R)
      R := by
  refine Action.Refines.bind (M := fun _ => R) (.ofExcept (fun _ _ _ _ h => h) fun _ _ h => h)
    fun resolved => ?_
  cases resolved with
  | block b =>
      exact Action.Refines.bind (M := fun _ => R) (.warn fun _ _ h => h)
        fun _ => .pure fun _ _ h => h
  | aperture d =>
      dsimp only
      cases d.template with
      | circle | rectangle | obround | polygon => exact .pure fun _ _ h => h
      | macroCall name parameters =>
          exact Action.Refines.bind (M := fun _ => R) (.warn fun _ _ h => h)
            fun _ => .pure fun _ _ h => h
      | unsupported name => exact .fail fun _ _ h => h

/-- Strokes keep what is steady. -/
theorem Steady.keeps_stroke (h : Steady P) (s : GraphicsState α) (segment : Segment α)
    (strokes : α → List (Geometry α)) : Action.Keeps P (stroke s segment strokes) := by
  refine Action.Keeps.bind (refines_strokeWidth s _ _).keeps fun width => ?_
  cases width with
  | none => exact Action.Keeps.pure _
  | some width => exact Action.Keeps.modify fun c => h.shapes c _

/-- An open contour stays open, so `contour` applies only together with the test for it. -/
theorem Steady.keeps_flushContour (h : Steady P) (s : GraphicsState α) :
    Action.Keeps P (flushContour s) := by
  intro c hc
  rw [flushContour, Action.gets_bind]
  cases hcontour : c.contour with
  | none => exact hc
  | some contour =>
      have hempty : P { c with contour := some .empty } := h.contour c _ (by rw [hcontour]; rfl) hc
      cases hclose : ((Action.inside contour Contour.close :
          Action (Composer α) (Option (List (Point α)))) c).result with
      | error e =>
          dsimp only
          rw [(Action.bind_eq_of_error hclose).2]
          exact hc
      | ok outline =>
          dsimp only
          rw [(Action.bind_eq_of_ok hclose).2]
          cases outline with
          | none => exact hempty
          | some outline => exact h.shapes _ [Contour.fill outline s.transform.polarity] hempty

/-- **Draw commands** keep what is steady. -/
theorem Steady.keeps_send [Legible α] (h : Steady P) (s : GraphicsState α) (segment : Segment α)
    (route : Route) : Action.Keeps P (route.send receiver s segment) := by
  cases route with
  | drawLine => exact h.keeps_stroke s segment _
  | drawArc direction quadrant => exact h.keeps_stroke s segment _
  | regionLine => exact h.keeps_extendContour _ _
  | regionArc direction quadrant => exact h.keeps_extendContour _ _

/-- The contour is closed after the end of a region, even if it could not be drawn. -/
theorem Steady.keeps_endRegion [Legible α] (h : Steady P)
    (hclose : ∀ c, P c → P { c with contour := none }) (s : GraphicsState α) :
    Action.Keeps P (receiver.endRegion s) := by
  refine Action.Keeps.bind (h.keeps_flushContour s).attempt fun result => ?_
  exact Action.Keeps.bind (Action.Keeps.modify hclose) fun _ => Action.Keeps.ofExcept _

end Steady

/-! ### Parts of callbacks -/

/-- Shapes and edges change neither the library nor the name of the main layer. -/
theorem steady_tied : Steady (Tied I) where
  shapes c shapes h := by
    refine ⟨h.library, ?_⟩
    rw [← h.main_id]
    exact id_main_congr (Layer.id_append _ _) rfl
  contour _ _ _ h := ⟨h.library, h.main_id⟩

/-- A contour changes neither the library nor the main layer. -/
theorem keeps_setContour (f : Composer α → Option (Contour α)) :
    Action.Keeps (Tied I) (Action.modify fun c => { c with contour := f c }) :=
  Action.Keeps.modify fun _ h => ⟨h.library, h.main_id⟩

/-- To begin a body changes neither the library nor the main layer. -/
theorem keeps_begin (id : LayerId) : Action.Keeps (Tied I) (begin id) := by
  refine Action.Keeps.modify fun c h => ⟨h.library, ?_⟩
  rw [main_of_below_cons rfl]
  exact h.main_id

/-- An action on the library keeps an invariant of libraries. -/
theorem keeps_onLibrary {β : Type} {a : Action (Library α) β} (ha : a.Keeps I) :
    Action.Keeps (Tied I) (onLibrary a) :=
  fun c h => ⟨ha c.toLibrary h.library, h.main_id⟩

/-- Takes the top layer off the stack. -/
theorem Tied.pop {c : Composer α} (h : Tied I c) {parent top : Layer α} {rest : List (Layer α)}
    (hbelow : c.below = parent :: rest) (htop : top.id = parent.id) :
    Tied I { c with top, below := rest } := by
  refine ⟨h.library, ?_⟩
  rw [← h.main_id, main_of_below_cons hbelow, main]
  cases rest.getLast? with
  | none => exact htop
  | some _ => rfl

variable [Scalar α]

/-- Copies of a body do not change the id of a layer. -/
theorem id_foldl_appendTranslated (l body : Layer α) (offsets : List (Point α)) :
    (offsets.foldl (fun l offset => l.appendTranslated body offset) l).id = l.id := by
  induction offsets generalizing l with
  | nil => rfl
  | cons offset rest ih => exact (ih _).trans (Layer.id_appendTranslated l body offset)

/-- Copies of a body are added one after the other, each moved by its offset. -/
theorem items_foldl_appendTranslated (l body : Layer α) (offsets : List (Point α)) :
    (offsets.foldl (fun l offset => l.appendTranslated body offset) l).items.toList =
      l.items.toList ++
        offsets.flatMap fun offset => body.items.toList.map (.translate offset) := by
  induction offsets generalizing l with
  | nil => simp
  | cons offset rest ih =>
      rw [List.foldl_cons, ih, Layer.items_appendTranslated, List.append_assoc, List.flatMap_cons]

/-- The shapes of an aperture do not depend on the state of the receiver. -/
theorem refines_apertureShapes {σ τ : Type} {doomed : Error → Prop} {P : σ → τ → Prop}
    (s : GraphicsState α) (template : Template α) :
    Action.Refines doomed P (apertureShapes s template) (apertureShapes s template) (fun _ => P)
      P := by
  cases template with
  | circle | rectangle | obround | polygon | unsupported => exact .pure fun _ _ h => h
  | macroCall name parameters =>
      unfold apertureShapes
      dsimp only
      split
      · exact .fail fun _ _ h => h
      · exact Action.Refines.bind (M := fun _ => P) (.inside (fun _ _ _ h => h) fun _ _ h => h)
          fun _ => .pure fun _ _ h => h

/-- Only a template without geometry has no shapes. -/
theorem ensures_apertureShapes {σ : Type} {P : σ → Prop} (s : GraphicsState α)
    (template : Template α) :
    (apertureShapes s template).Ensures P
      (fun shapes c => (shapes = none → ∃ name, template = .unsupported name) ∧ P c)
      fun _ => P := by
  cases template with
  | circle | rectangle | obround | polygon => exact fun c hc => ⟨nofun, hc⟩
  | unsupported name => exact fun c hc => ⟨fun _ => ⟨name, rfl⟩, hc⟩
  | macroCall name parameters =>
      unfold apertureShapes
      dsimp only
      split
      · exact fun c hc => hc
      · refine Action.Ensures.bind (Action.Keeps.inside _ _).ensures fun shapes => ?_
        exact fun c hc => ⟨nofun, hc⟩

/-! ### Callbacks -/

section Callbacks

variable {P : Composer α → Prop}

/-- The end of a step-and-repeat draws the copies and takes the top layer off the stack. -/
theorem keeps_endStepRepeat {r : StepRepeat α}
    (h : ∀ (c : Composer α) parent rest, c.below = parent :: rest → P c →
      let top := (offsets r.grid).foldl (fun l offset => l.appendTranslated c.top offset) parent
      P { c with top, below := rest }) : Action.Keeps P (endStepRepeat r) := by
  intro c hc
  rw [endStepRepeat, Action.get_bind]
  cases hbelow : c.below with
  | nil => exact hc
  | cons parent rest => exact h c parent rest hbelow hc

variable [Legible α]

omit [Scalar α] in
/-- The end of a block takes the top layer off the stack into the library. -/
theorem keeps_endBlock {b : Block α}
    (h : ∀ (c : Composer α) parent rest, c.below = parent :: rest → P c →
      P { c with
        toLibrary := c.toLibrary.revise (.define c.top)
        top := parent
        below := rest }) : Action.Keeps P (endBlock b) := by
  intro c hc
  rw [endBlock, Action.get_bind]
  cases hbelow : c.below with
  | nil => exact hc
  | cons parent rest =>
      dsimp only
      by_cases hid : c.top.id = LayerId.ofAperture b.id
      · rw [if_pos hid]
        exact h c parent rest hbelow hc
      · rw [if_neg hid]
        exact hc

/-- The definition of an aperture defines its layer, or removes it for want of geometry. -/
theorem keeps_defineAperture {s : GraphicsState α} {d : ApertureDefinition α}
    (hdefine : ∀ (c : Composer α) (shapes : List (Shape α)), P c →
      let layer := Layer.ofItems (.ofAperture d.id) (shapes.map .shape)
      P { c with toLibrary := c.toLibrary.revise (.define layer) })
    (hremove : ∀ name, d.template = .unsupported name → ∀ c : Composer α, P c →
      P { c with toLibrary := c.toLibrary.revise (.remove (.ofAperture d.id)) }) :
    Action.Keeps P (defineAperture s d) := by
  refine (Action.Ensures.bind (ensures_apertureShapes s d.template) fun shapes =>
    Action.Ensures.of_and fun hnone => Action.Keeps.ensures ?_).keeps
  cases shapes with
  | none =>
      obtain ⟨name, hname⟩ := hnone rfl
      exact hremove name hname
  | some shapes => exact fun c => hdefine c shapes

/-- A flash asks for a variant and pastes it. -/
theorem keeps_flash {s : GraphicsState α} {id : ApertureId} {center : Point α}
    {Q : LayerId → Composer α → Prop}
    (hvariant : Action.Ensures P (onLibrary (Library.variant s.transform (.ofAperture id))) Q
      fun _ => P)
    (hpaste : ∀ (c : Composer α) source, Q source c →
      P { c with top := c.top.push (.paste ⟨source, center, s.transform.polarity⟩) }) :
    Action.Keeps P (flash s id center) := by
  refine Action.Keeps.bind (Action.Keeps.gets _) fun isOpen => ?_
  split
  · exact Action.Keeps.fail _
  · exact (Action.Ensures.bind hvariant fun source c hc => hpaste c source hc).keeps

/-- A flash that gets its variant pastes it. -/
theorem flash_of_variant {c : Composer α} {s : GraphicsState α} {id : ApertureId} {center : Point α}
    {source : LayerId} (hopen : c.stack.any (·.id == .ofAperture id) = false)
    (hvariant : (Library.variant s.transform (.ofAperture id) c.toLibrary).result = .ok source) :
    (flash s id center c).result = .ok () ∧ (flash s id center c).state =
      { c with
        toLibrary := (Library.variant s.transform (.ofAperture id) c.toLibrary).state
        top := c.top.push (.paste ⟨source, center, s.transform.polarity⟩) } := by
  have hsource : (onLibrary (Library.variant s.transform (.ofAperture id)) c).result =
      .ok source := hvariant
  obtain ⟨hresult, hstate⟩ := Action.bind_eq_of_ok (f := fun source =>
    draw (·.push (.paste ⟨source, center, s.transform.polarity⟩))) hsource
  rw [flash, Action.gets_bind, hopen]
  simp only [Bool.false_eq_true, if_false]
  rw [hresult, hstate]
  exact ⟨rfl, rfl⟩

/-- A flash that gets no variant draws nothing. -/
theorem flash_of_error {c : Composer α} {s : GraphicsState α} {id : ApertureId} {center : Point α}
    {e : Error} (hopen : c.stack.any (·.id == .ofAperture id) = false)
    (hvariant : (Library.variant s.transform (.ofAperture id) c.toLibrary).result = .error e) :
    (flash s id center c).result = .error e ∧ (flash s id center c).state =
      { c with toLibrary := (Library.variant s.transform (.ofAperture id) c.toLibrary).state } := by
  have hfailed : (onLibrary (Library.variant s.transform (.ofAperture id)) c).result =
      .error e := hvariant
  obtain ⟨hresult, hstate⟩ := Action.bind_eq_of_error (f := fun source =>
    draw (·.push (.paste ⟨source, center, s.transform.polarity⟩))) hfailed
  rw [flash, Action.gets_bind, hopen]
  simp only [Bool.false_eq_true, if_false]
  rw [hresult, hstate]
  exact ⟨rfl, rfl⟩

/-- **The composer** keeps what definitions, removals and variants keep of its library. -/
theorem keeps_receiver (hdefine : ∀ lib l, I lib → I (lib.revise (.define l)))
    (hremove : ∀ lib id, I lib → I (lib.revise (.remove id)))
    (hvariant : ∀ t base, Action.Keeps I (Library.variant t base)) :
    Receiver.Keeps (Tied I) (receiver : Receiver α (Composer α)) where
  apertureDefined s d :=
    keeps_defineAperture (fun c _ h => ⟨hdefine c.toLibrary _ h.library, h.main_id⟩)
      fun _ _ c h => ⟨hremove c.toLibrary _ h.library, h.main_id⟩
  beginBlock _ b := keeps_begin _
  endBlock _ b := keeps_endBlock fun c _ _ hbelow h =>
    ⟨hdefine c.toLibrary _ h.library, (h.pop hbelow rfl).main_id⟩
  beginStepRepeat _ _ := by
    refine Action.Keeps.bind (Action.Keeps.modify fun _ h => ⟨h.library, h.main_id⟩) fun _ => ?_
    exact Action.Keeps.bind (Action.Keeps.gets _) fun n => keeps_begin _
  endStepRepeat _ r := keeps_endStepRepeat fun c _ _ hbelow h =>
    h.pop hbelow (id_foldl_appendTranslated _ _ _)
  flash s id _ center := by
    refine keeps_flash (keeps_onLibrary (hvariant _ _)).ensures fun c source h => ⟨h.library, ?_⟩
    rw [← h.main_id]
    exact id_main_congr (Layer.id_push _ _) rfl
  send s segment route := steady_tied.keeps_send s segment route
  beginRegion _ := keeps_setContour _
  flushRegion s := steady_tied.keeps_flushContour s
  endRegion s := steady_tied.keeps_endRegion (fun _ h => ⟨h.library, h.main_id⟩) s
  endOfFile _ := keeps_setContour _

end Callbacks

end Photoplot.Composer
