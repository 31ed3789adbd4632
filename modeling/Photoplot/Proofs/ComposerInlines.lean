import Mathlib.Data.List.ReduceOption
import Photoplot.Proofs.ComposerInvariants
import Photoplot.Proofs.LibraryImages

/-!
# The Composer Inlines

While one program is run for the composer and for the inliner, the layers of the one depict the
shapes of the other: each layer on the stack depicts the body in the same place, and the layer of
an aperture depicts its image. Every callback keeps this up.

## Name convention

An id that is still to be defined has no layer yet. A block is begun before it is defined, so its id
is one of the **pending** ids until the end of its body; so are the fresh ids. As no id is defined
twice, the layer of a pending id replaces none when it is defined.

## Main definitions

* `Library.Shows`: a library shows the images of apertures.
* `Composer.Mirrors`: a composer mirrors an inliner.

## Main results

* `Composer.refines_inliner`: the callbacks of the composer refine those of the inliner, where only
  fatal errors are doomed.
-/

namespace Photoplot

/-! ### Libraries and images -/

namespace Library

variable [Legible ℝ] {scope : Scope ℝ} {lib lib' : Library ℝ}
  {images : Std.TreeMap ApertureId (List (PlacedShape ℝ))}

/-- A sound library, in which the layers of apertures depict their images. -/
structure Shows (scope : Scope ℝ) (lib : Library ℝ)
    (images : Std.TreeMap ApertureId (List (PlacedShape ℝ))) : Prop where
  sound : lib.Sound scope
  images (id : ApertureId) : id.IsNumbered →
    Option.Rel (fun layer placed => lib.layers.Depicts layer.items.toList placed)
      lib.layers[LayerId.ofAperture id]? images[id]?

/-- Without layers nothing is defined. -/
theorem shows_empty : (empty : Library ℝ).Shows scope ∅ where
  sound := sound_empty
  images id _ := by
    simp only [empty, Std.TreeMap.getElem?_emptyc]
    exact .none

/-- Variants leave the layers of apertures alone. -/
theorem Shows.enrich (h : lib.Shows scope images) (henriched : Enriched scope lib lib') :
    lib'.Shows scope images where
  sound := henriched.sound
  images id hid := by
    rw [henriched.numbered id hid]
    exact henriched.layers.rel_depicts (h.images id hid)

/-- A definition shows one more image. -/
theorem Shows.define (h : lib.Shows scope images) {id : ApertureId} (hid : id.IsNumbered)
    {l : Layer ℝ} (hname : l.id = .ofAperture id) (hunused : lib.layers[l.id]? = none)
    {placed : List (PlacedShape ℝ)} (hdepicts : lib.layers.Depicts l.items.toList placed) :
    (lib.revise (.define l)).Shows scope (images.insert id placed) where
  sound := h.sound.define hid hname hunused fun _ => hdepicts.lookup_source
  images other hother := by
    have hincludes := includes_define hunused
    have hlookup : (lib.revise (.define l)).layers[LayerId.ofAperture other]? =
        if l.id = .ofAperture other then some l else lib.layers[LayerId.ofAperture other]? :=
      LayerTable.lookup_insert _ _ _ _
    rw [hlookup, Std.TreeMap.getElem?_insert, hname]
    simp only [Std.compare_eq_iff_eq]
    by_cases heq : id = other
    · rw [if_pos (congrArg _ heq), if_pos heq]
      exact .some (hdepicts.extend hincludes)
    · rw [if_neg fun hname => heq (LayerId.ofAperture_inj hname), if_neg heq]
      exact hincludes.rel_depicts (h.images other hother)

/-- A definition without geometry shows nothing, as before. -/
theorem Shows.remove (h : lib.Shows scope images) {id : ApertureId}
    (hunused : lib.layers[LayerId.ofAperture id]? = none) :
    (lib.revise (.remove (.ofAperture id))).Shows scope (images.erase id) where
  sound := (h.sound.remove hunused).1
  images other hother := by
    have hlookup := (h.sound.remove hunused).2
    rw [hlookup, Std.TreeMap.getElem?_erase]
    simp only [Std.compare_eq_iff_eq]
    have hincludes : (lib.revise (.remove (.ofAperture id))).layers.Includes lib.layers :=
      fun id layer hlayer => (hlookup id).trans hlayer
    by_cases heq : id = other
    · rw [if_pos heq, ← heq, hunused]
      exact .none
    · rw [if_neg heq]
      exact hincludes.rel_depicts (h.images other hother)

end Library

/-! ### Composers and inliners -/

namespace Composer

variable [Legible ℝ] {scope : Scope ℝ} {bodies : List (Option ApertureId)}
  {fresh : List ApertureId} {body : Option ApertureId} {c : Composer ℝ} {i : Inliner ℝ}

/-- The ids that are still to be defined. -/
abbrev pendingIds (bodies : List (Option ApertureId)) (fresh : List ApertureId) : List ApertureId :=
  bodies.reduceOption ++ fresh

/-- A composer **mirrors** an inliner. -/
structure Mirrors (scope : Scope ℝ) (bodies : List (Option ApertureId)) (fresh : List ApertureId)
    (c : Composer ℝ) (i : Inliner ℝ) : Prop where
  library : c.toLibrary.Shows scope i.images
  contour : c.contour = i.contour
  stack : List.Forall₂ (fun layer placed => c.layers.Depicts layer.items.toList placed)
    (c.top :: c.below) (i.top :: i.below)
  names : List.Forall₂ (fun layer body => ∀ id ∈ body, layer.id = .ofAperture id)
    (c.top :: c.below) (bodies ++ [none])
  pending : ∀ id ∈ pendingIds bodies fresh, id.IsNumbered ∧ c.layers[LayerId.ofAperture id]? = none
  distinct : (pendingIds bodies fresh).Nodup

/-- Before the first command nothing has been defined on either side. -/
theorem mirrors_initial (hnumbered : ∀ id ∈ fresh, id.IsNumbered) (hnodup : fresh.Nodup) :
    Mirrors scope [] fresh .initial .initial where
  library := Library.shows_empty
  contour := rfl
  stack := .cons .nil .nil
  names := .cons (fun _ h => by cases h) .nil
  pending id hid := ⟨hnumbered id hid, by simp [initial, Library.empty]⟩
  distinct := hnodup

/-- Fewer apertures may be left to define. -/
theorem Mirrors.fewer {fresh' : List ApertureId} (h : Mirrors scope bodies fresh c i)
    (hsub : fresh'.Sublist fresh) : Mirrors scope bodies fresh' c i :=
  { h with
    pending := fun id hid => h.pending id ((hsub.append_left _).subset hid)
    distinct := (hsub.append_left _).nodup h.distinct }

/-- A contour is changed alike. -/
theorem Mirrors.setContour (h : Mirrors scope bodies fresh c i) (contour : Option (Contour ℝ)) :
    Mirrors scope bodies fresh { c with contour } { i with contour } :=
  ⟨h.library, rfl, h.stack, h.names, h.pending, h.distinct⟩

/-- What is on top is drawn into. -/
theorem Mirrors.setTop (h : Mirrors scope bodies fresh c i) {top : Layer ℝ}
    {placed : List (PlacedShape ℝ)} (hid : top.id = c.top.id)
    (hdepicts : c.layers.Depicts top.items.toList placed) :
    Mirrors scope bodies fresh { c with top } { i with top := placed } := by
  obtain ⟨hlibrary, hcontour, hstack, hnames, hpending, hdistinct⟩ := h
  cases hstack with
  | cons _ hbelow =>
      refine ⟨hlibrary, hcontour, .cons hdepicts hbelow, ?_, hpending, hdistinct⟩
      generalize bodies ++ [none] = open' at hnames ⊢
      cases hnames with
      | cons htop hrest => exact .cons (fun id h => hid.trans (htop id h)) hrest

/-- The layer on top depicts the shapes on top. -/
theorem Mirrors.depicts_top (h : Mirrors scope bodies fresh c i) :
    c.layers.Depicts c.top.items.toList i.top := by
  cases h.stack with
  | cons htop _ => exact htop

/-- Something is drawn. -/
theorem Mirrors.draw (h : Mirrors scope bodies fresh c i) {f : Layer ℝ → Layer ℝ}
    {items : List (Item ℝ)} {placed : List (PlacedShape ℝ)} (hid : ∀ l, (f l).id = l.id)
    (hitems : ∀ l, (f l).items.toList = l.items.toList ++ items)
    (hdepicts : c.layers.Depicts items placed) :
    Mirrors scope bodies fresh { c with top := f c.top } { i with top := i.top ++ placed } := by
  refine h.setTop (hid c.top) ?_
  rw [hitems]
  exact h.depicts_top.append hdepicts

/-- Variants are built. -/
theorem Mirrors.enrich (h : Mirrors scope bodies fresh c i) {lib : Library ℝ}
    (henriched : Library.Enriched scope c.toLibrary lib) :
    Mirrors scope bodies fresh { c with toLibrary := lib } i where
  library := h.library.enrich henriched
  contour := h.contour
  stack := h.stack.imp fun _ _ hdepicts => hdepicts.extend henriched.layers
  names := h.names
  pending id hid := by
    obtain ⟨hnumbered, hunused⟩ := h.pending id hid
    exact ⟨hnumbered, (henriched.numbered id hnumbered).trans hunused⟩
  distinct := h.distinct

/-! ### Definitions -/

/-- A definition makes one id less pending. -/
theorem Mirrors.define {id : ApertureId} (h : Mirrors scope bodies (id :: fresh) c i) {l : Layer ℝ}
    (hname : l.id = .ofAperture id) {placed : List (PlacedShape ℝ)}
    (hdepicts : c.layers.Depicts l.items.toList placed) :
    Mirrors scope bodies fresh { c with toLibrary := c.toLibrary.revise (.define l) }
      { i with images := i.images.insert id placed } := by
  obtain ⟨hnumbered, hunused⟩ := h.pending id (List.mem_append_right _ List.mem_cons_self)
  rw [← hname] at hunused
  have hperm : (pendingIds bodies (id :: fresh)).Perm (id :: pendingIds bodies fresh) :=
    List.perm_middle
  obtain ⟨hnotMem, hnodup⟩ := List.nodup_cons.mp (hperm.nodup_iff.mp h.distinct)
  refine ⟨h.library.define hnumbered hname hunused hdepicts, h.contour,
    h.stack.imp fun _ _ hdepicts => hdepicts.extend (Library.includes_define hunused), h.names,
    fun other hother => ?_, hnodup⟩
  obtain ⟨hnumbered', hunused'⟩ :=
    h.pending other (hperm.mem_iff.mpr (List.mem_cons_of_mem _ hother))
  refine ⟨hnumbered', (LayerTable.lookup_insert _ _ _ _).trans ?_⟩
  rw [hname, if_neg, hunused']
  intro heq
  obtain rfl := LayerId.ofAperture_inj heq
  exact hnotMem hother

/-- So does a definition without geometry. -/
theorem Mirrors.remove {id : ApertureId} (h : Mirrors scope bodies (id :: fresh) c i) :
    Mirrors scope bodies fresh
      { c with toLibrary := c.toLibrary.revise (.remove (.ofAperture id)) }
      { i with images := i.images.erase id } := by
  obtain ⟨hnumbered, hunused⟩ := h.pending id (List.mem_append_right _ List.mem_cons_self)
  have hlookup := (h.library.sound.remove hunused).2
  have hfewer := h.fewer (List.sublist_cons_self id fresh)
  refine ⟨h.library.remove hunused, h.contour, h.stack.imp fun _ _ hdepicts => ?_, h.names,
    fun other hother => ?_, hfewer.distinct⟩
  · exact hdepicts.extend fun id layer hlayer => (hlookup id).trans hlayer
  · obtain ⟨hnumbered', hunused'⟩ := hfewer.pending other hother
    exact ⟨hnumbered', (hlookup _).trans hunused'⟩

/-! ### Bodies -/

omit [Legible ℝ] in
/-- The block of a body that is open is still to be defined. -/
theorem perm_pendingIds_cons (body : Option ApertureId) (bodies : List (Option ApertureId))
    (fresh : List ApertureId) :
    (pendingIds (body :: bodies) fresh).Perm (pendingIds bodies (body.toList ++ fresh)) := by
  cases body with
  | none => exact List.Perm.refl _
  | some id => exact List.perm_middle.symm

/-- A body is begun. -/
theorem Mirrors.push (body : Option ApertureId)
    (h : Mirrors scope bodies (body.toList ++ fresh) c i) {name : LayerId}
    (hname : ∀ id ∈ body, name = .ofAperture id) :
    Mirrors scope (body :: bodies) fresh { c with top := .empty name, below := c.top :: c.below }
      { i with top := [], below := i.top :: i.below } where
  library := h.library
  contour := h.contour
  stack := .cons .nil h.stack
  names := .cons hname h.names
  pending id hid := h.pending id ((perm_pendingIds_cons body bodies fresh).mem_iff.mp hid)
  distinct := (perm_pendingIds_cons body bodies fresh).nodup_iff.mpr h.distinct

/-- There is something below the layer of a body. -/
theorem Mirrors.exists_below (h : Mirrors scope (body :: bodies) fresh c i) :
    ∃ parent rest parent' rest', c.below = parent :: rest ∧ i.below = parent' :: rest' := by
  obtain ⟨-, -, hstack, hnames, -, -⟩ := h
  cases hstack with
  | cons _ hbelow =>
      cases hnames with
      | cons _ hrest =>
          cases hc : c.below with
          | nil =>
              rw [hc] at hrest
              simpa using hrest.length_eq
          | cons parent rest =>
              rw [hc] at hbelow
              cases hi : i.below with
              | nil =>
                  rw [hi] at hbelow
                  cases hbelow
              | cons parent' rest' => exact ⟨parent, rest, parent', rest', rfl, rfl⟩

/-- A body is ended. The id of a block is still to be defined. -/
theorem Mirrors.pop (h : Mirrors scope (body :: bodies) fresh c i) {parent : Layer ℝ}
    {rest : List (Layer ℝ)} {parent' : List (PlacedShape ℝ)} {rest' : List (List (PlacedShape ℝ))}
    (hc : c.below = parent :: rest) (hi : i.below = parent' :: rest') :
    (∀ id ∈ body, c.top.id = .ofAperture id) ∧
      Mirrors scope bodies (body.toList ++ fresh) { c with top := parent, below := rest }
        { i with top := parent', below := rest' } := by
  obtain ⟨hlibrary, hcontour, hstack, hnames, hpending, hdistinct⟩ := h
  rw [hc, hi] at hstack
  rw [hc] at hnames
  cases hstack with
  | cons _ hstack =>
      cases hnames with
      | cons htop hnames =>
          refine ⟨htop, hlibrary, hcontour, hstack, hnames, fun id hid => ?_, ?_⟩
          · exact hpending id ((perm_pendingIds_cons body bodies fresh).mem_iff.mpr hid)
          · exact (perm_pendingIds_cons body bodies fresh).nodup_iff.mp hdistinct

/-! ### Strokes and contours -/

variable {doomed : Error → Prop} {E : Composer ℝ → Inliner ℝ → Prop}

/-- Shapes are drawn on both sides. -/
theorem refines_draw (shapes : List (Shape ℝ)) {f : Layer ℝ → Layer ℝ}
    (hid : ∀ l, (f l).id = l.id)
    (hitems : ∀ l, (f l).items.toList = l.items.toList ++ shapes.map .shape) :
    Action.Refines doomed (Mirrors scope bodies fresh) (Composer.draw f)
      (Inliner.draw (shapes.map .drawn)) (fun _ => Mirrors scope bodies fresh) E :=
  .modify fun _ _ h => h.draw hid hitems (LayerTable.depicts_shapes shapes)

/-- The same contour is set on both sides. -/
theorem refines_setContour (contour : Option (Contour ℝ)) :
    Action.Refines doomed (Mirrors scope bodies fresh)
      (Action.modify fun c : Composer ℝ => { c with contour })
      (Action.modify fun i : Inliner ℝ => { i with contour })
      (fun _ => Mirrors scope bodies fresh) E :=
  .modify fun _ _ h => h.setContour contour

/-- Strokes are drawn on both sides. -/
theorem refines_stroke (s : GraphicsState ℝ) (segment : Segment ℝ)
    (strokes : ℝ → List (Geometry ℝ)) :
    Action.Refines doomed (Mirrors scope bodies fresh) (stroke s segment strokes)
      (Inliner.stroke s segment strokes) (fun _ => Mirrors scope bodies fresh)
      (Mirrors scope bodies fresh) := by
  refine Action.Refines.bind (refines_strokeWidth s _ _) fun width => ?_
  cases width with
  | none => exact .pure fun _ _ h => h
  | some width => exact refines_draw _ (fun l => l.id_append _) fun l => l.items_append _

/-- Edges are added on both sides. -/
theorem refines_extendContour (start : Point ℝ) (edges : List (Edge ℝ)) :
    Action.Refines doomed (Mirrors scope bodies fresh) (extendContour start edges)
      (Inliner.extendContour start edges) (fun _ => Mirrors scope bodies fresh)
      (Mirrors scope bodies fresh) := by
  refine Action.Refines.bind (M := fun _ => Mirrors scope bodies fresh)
    (.gets fun c i h => ⟨by rw [h.contour], h⟩) fun isNone => ?_
  split
  · exact .fail fun _ _ h => h
  · refine .modify fun c i h => ?_
    rw [← h.contour]
    exact h.setContour _

/-- The polygon of a contour is drawn on both sides. -/
theorem refines_flushContour (s : GraphicsState ℝ) :
    Action.Refines doomed (Mirrors scope bodies fresh) (flushContour s) (Inliner.flushContour s)
      (fun _ => Mirrors scope bodies fresh) (Mirrors scope bodies fresh) := by
  refine Action.Refines.bind (M := fun _ => Mirrors scope bodies fresh)
    (.gets fun c i h => ⟨h.contour, h⟩) fun contour => ?_
  cases contour with
  | none => exact .fail fun _ _ h => h
  | some contour =>
      refine Action.Refines.bind (M := fun _ => Mirrors scope bodies fresh)
        (.inside (fun _ _ _ h => h) fun _ _ h => h) fun outline => ?_
      refine Action.Refines.bind (refines_setContour _) fun _ => ?_
      cases outline with
      | none => exact .pure fun _ _ h => h
      | some outline =>
          exact refines_draw [_] (fun l => l.id_push _) fun l => l.items_push _

/-! ### Apertures, blocks and step-and-repeats -/

/-- An aperture is defined on both sides. -/
theorem refines_defineAperture (s : GraphicsState ℝ) (d : ApertureDefinition ℝ) :
    Action.Refines doomed (Mirrors scope bodies (d.id :: fresh)) (defineAperture s d)
      (Inliner.defineAperture s d) (fun _ => Mirrors scope bodies fresh)
      (Mirrors scope bodies fresh) := by
  refine Action.Refines.bind ((refines_apertureShapes s d.template).weaken (fun _ _ _ h => h)
    fun _ _ h => h.fewer (List.sublist_cons_self _ _)) fun shapes => ?_
  cases shapes with
  | none => exact .of_steps fun c i h => ⟨rfl, h.remove⟩
  | some shapes =>
      refine .of_steps fun c i h => ⟨rfl, h.define (Layer.id_ofItems _ _) ?_⟩
      rw [Layer.items_ofItems]
      exact LayerTable.depicts_shapes shapes

/-- A body is begun on both sides. -/
theorem refines_begin (body : Option ApertureId) {name : LayerId}
    (hname : ∀ id ∈ body, name = .ofAperture id) :
    Action.Refines doomed (Mirrors scope bodies (body.toList ++ fresh)) (begin name)
      Inliner.begin (fun _ => Mirrors scope (body :: bodies) fresh) E :=
  .modify fun _ _ h => h.push body hname

/-- The body of a step-and-repeat is begun on both sides. -/
theorem refines_beginStepRepeat :
    Action.Refines doomed (Mirrors scope bodies fresh) beginStepRepeat Inliner.begin
      (fun _ => Mirrors scope (none :: bodies) fresh) E := by
  refine .of_steps fun c i h => ⟨rfl, ?_⟩
  have hcounted : Mirrors scope bodies fresh { c with stepRepeats := c.stepRepeats + 1 } i :=
    ⟨h.library, h.contour, h.stack, h.names, h.pending, h.distinct⟩
  exact hcounted.push none fun _ hid => by cases hid

/-- A block is defined by its body on both sides. -/
theorem refines_endBlock (b : Block ℝ) :
    Action.Refines doomed (Mirrors scope (some b.id :: bodies) fresh) (endBlock b)
      (Inliner.endBlock b) (fun _ => Mirrors scope bodies fresh) (Mirrors scope bodies fresh) := by
  refine .of_steps fun c i h => ?_
  obtain ⟨parent, rest, parent', rest', hc, hi⟩ := h.exists_below
  obtain ⟨hname, hpopped⟩ := h.pop hc hi
  have hid : c.top.id = .ofAperture b.id := hname b.id rfl
  rw [endBlock, Inliner.endBlock, Action.get_bind, Action.get_bind, hc, hi]
  dsimp only
  rw [if_pos hid]
  exact ⟨rfl, hpopped.define hid h.depicts_top⟩

/-- The copies of a step-and-repeat are drawn on both sides. -/
theorem refines_endStepRepeat (r : StepRepeat ℝ) :
    Action.Refines doomed (Mirrors scope (none :: bodies) fresh) (endStepRepeat r)
      (Inliner.endStepRepeat r) (fun _ => Mirrors scope bodies fresh)
      (Mirrors scope bodies fresh) := by
  refine .of_steps fun c i h => ?_
  obtain ⟨parent, rest, parent', rest', hc, hi⟩ := h.exists_below
  obtain ⟨-, hpopped⟩ := h.pop hc hi
  rw [endStepRepeat, Inliner.endStepRepeat, Action.get_bind, Action.get_bind, hc, hi]
  refine ⟨rfl, hpopped.setTop (id_foldl_appendTranslated _ _ _) ?_⟩
  rw [items_foldl_appendTranslated]
  exact hpopped.depicts_top.append (h.depicts_top.copies _)

/-! ### Flashes -/

/-- **A flash.** A paste of a variant depicts the reshaped image in its place. -/
theorem refines_flash (hscope : scope.TellsApart) {s : GraphicsState ℝ} (hs : s.Within scope)
    {id : ApertureId} (hid : id.IsNumbered) (center : Point ℝ) :
    Action.Refines (fun e => e.isFatal) (Mirrors scope bodies fresh) (flash s id center)
      (Inliner.flash Transform.reshape s id center) (fun _ => Mirrors scope bodies fresh)
      (Mirrors scope bodies fresh) := by
  intro c i h
  have himage := h.library.images id hid
  cases hopen : c.stack.any (·.id == .ofAperture id) with
  | true =>
      refine .inl ⟨.cyclicLayer (.ofAperture id), ?_, rfl⟩
      rw [flash, Action.gets_bind, hopen]
      rfl
  | false =>
      rw [Inliner.flash, Action.gets_bind]
      generalize hlayer : c.layers[LayerId.ofAperture id]? = found at himage
      generalize i.images[id]? = image at himage
      cases himage with
      | none =>
          have hmissing := Library.variant_of_missing s.transform hlayer
          obtain ⟨hresult, hstate⟩ := flash_of_error hopen (congrArg Step.result hmissing)
          rw [hresult, hstate, hmissing]
          exact .inr ⟨rfl, h⟩
      | @some layer placed hdepicts =>
          have hstep := Library.ensures_variant hscope ⟨hs.rotation, hs.scale⟩ h.library.sound
            hlayer c.toLibrary rfl
          cases hvariant : (Library.variant s.transform (.ofAperture id) c.toLibrary).result with
          | error e =>
              rw [hvariant] at hstep
              exact .inl ⟨e, (flash_of_error hopen hvariant).1, hstep⟩
          | ok source =>
              rw [hvariant] at hstep
              obtain ⟨henriched, pasted, hpasted, hreshaped⟩ := hstep
              obtain ⟨hresult, hstate⟩ := flash_of_variant hopen hvariant
              have hitem := LayerTable.Depicts.paste
                (p := ⟨source, center, s.transform.polarity⟩) hpasted
                (hreshaped placed hdepicts) .nil
              rw [List.append_nil] at hitem
              rw [hresult, hstate]
              exact .inr ⟨rfl, (h.enrich henriched).draw (fun l => l.id_push _)
                (fun l => l.items_push _) hitem⟩

/-- **The callbacks.** Errors that are not fatal are the same. -/
theorem refines_inliner (hscope : scope.TellsApart) (hids : ∀ id, scope.ids id → id.IsNumbered) :
    Receiver.Refines (fun e => e.isFatal) scope (Mirrors scope) receiver
      (Inliner.receiver Transform.reshape) where
  fewer hsub h := h.fewer hsub
  apertureDefined s d _ _ _ _ := refines_defineAperture s d
  beginBlock _ b _ _ _ _ := refines_begin (some b.id) fun _ hid => by
    obtain rfl := Option.some.inj hid
    rfl
  endBlock _ b _ _ _ _ := refines_endBlock b
  beginStepRepeat _ _ _ _ _ := refines_beginStepRepeat
  endStepRepeat _ r _ _ _ := refines_endStepRepeat r
  flash s id _ center _ _ hs hid := refines_flash hscope hs (hids id hid) center
  send s segment route _ _ _ := by
    cases route with
    | drawLine => exact refines_stroke s segment _
    | drawArc direction quadrant => exact refines_stroke s segment _
    | regionLine => exact refines_extendContour _ _
    | regionArc direction quadrant => exact refines_extendContour _ _
  beginRegion _ _ _ _ := refines_setContour _
  flushRegion s _ _ _ := refines_flushContour s
  endRegion s bodies fresh _ := by
    have hleave (result : Except Error Unit) : Action.Refines (fun e => e.isFatal)
        (Mirrors scope bodies fresh)
        (do
          Action.modify fun c : Composer ℝ => { c with contour := none }
          Action.ofExcept result)
        (do
          Action.modify fun i : Inliner ℝ => { i with contour := none }
          Action.ofExcept result)
        (fun _ => Mirrors scope bodies fresh) (Mirrors scope bodies fresh) :=
      Action.Refines.bind (refines_setContour none) fun _ =>
        .ofExcept (fun _ _ _ _ h => h) fun _ _ h => h
    have hflush : Action.Refines (fun _ => False) (Mirrors scope bodies fresh) (flushContour s)
        (Inliner.flushContour s) (fun _ => Mirrors scope bodies fresh)
        (Mirrors scope bodies fresh) := refines_flushContour s
    exact Action.Refines.attempt_bind hflush (fun _ => hleave _) (fun _ => hleave _)
      fun _ => False.elim
  endOfFile _ _ _ := refines_setContour _

end Composer

end Photoplot
