import Photoplot.Proofs.PolarityErasure
import Photoplot.Proofs.VariantHistory

/-!
# Machines That Cannot Be Told Apart

What a program has defined is kept by name, and the order in which it was defined leaves its mark:
on the shape of the trees that hold it, and on the history of the library. Nothing that is drawn
depends on either. Two machines are **twins** if they know the same definitions by the same names
and are otherwise alike, and a program cannot tell twins apart.

## Recoloring convention

Twins are machines of which one is the other one with its colors left alone. So what is known of
other colors is known of twins, and the identity is the only recoloring here. The recolored program
has no remarks; both twins run like it, and therefore like each other.

## Main definitions

* `Library.Twin`: libraries with the same layers and the same variants, whatever their history.
* `Machine.Twin`: machines of which nothing but the order of definitions differs.

## Main results

* `Library.refines_build_twin`: variants are built alike, by induction on how deep they are nested.
* `Machine.couples_visitAll_twin`: nodes in order are carried out alike by twins.
* `result_compile_of_twins`: programs that lead to twins have the same outcome.
-/

namespace Photoplot

variable {α σ : Type}

/-! ### Layers -/

section

variable {stencil : Bool}

/-- The identity leaves all items alone. -/
@[simp] theorem Item.recolor_id (item : Item α) : item.recolor id stencil = item := by
  cases item with
  | shape s => cases stencil <;> rfl
  | paste p => rfl

/-- The identity leaves all items of a list alone. -/
theorem Item.map_recolor_id (items : List (Item α)) :
    items.map (Item.recolor id stencil) = items :=
  (List.map_congr_left fun item _ => item.recolor_id).trans items.map_id

/-- The identity leaves all layers alone. -/
@[simp] theorem LayerTable.recolor_id (l : Layer α) : l.recolor id stencil = l := by
  have hitems : l.items.map (Item.recolor id stencil) = l.items := by
    rw [← Array.toList_inj, Array.toList_map, Item.map_recolor_id]
  cases l
  simpa [Layer.recolor] using hitems

end

/-! ### Libraries -/

namespace Library

/-- The libraries have the same layers and record the same variants. How they came to it may
differ. -/
structure Twin (lib lib' : Library α) : Prop where
  layers (id : LayerId) : lib.layers[id]? = lib'.layers[id]?
  variants : lib.variants = lib'.variants

variable {lib lib' : Library α}

/-- Libraries are twins of themselves, of their twins, and of twins of their twins. -/
theorem equivalence_twin : Equivalence (Twin : Library α → Library α → Prop) where
  refl _ := ⟨fun _ => rfl, rfl⟩
  symm h := ⟨fun id => (h.layers id).symm, h.variants.symm⟩
  trans h h' := ⟨fun id => (h.layers id).trans (h'.layers id), h.variants.trans h'.variants⟩

/-- One of two twins is the other one with its colors left alone. -/
theorem Twin.recolors (h : Twin lib lib') :
    LayerTable.Recolors id (fun _ => false) lib.layers lib'.layers := fun id => by
  rw [← h.layers id]
  cases lib.layers[id]? <;> simp

variable [Legible α]

variable {r r' : Revision α}

/-- A definition or a removal drops the variants of its layer from the record. -/
theorem variants_revise (hr : r.isBuild = false) (lib : Library α) :
    (lib.revise r).variants = lib.dropVariants r.target := by
  cases r with
  | define | remove => rfl
  | build => cases hr

/-- A layer is defined or removed in both libraries. -/
theorem Twin.revised (h : Twin lib lib') (hr : r.isBuild = false) :
    Twin (lib.revise r) (lib'.revise r) where
  layers id := by rw [lookup_revise, lookup_revise, h.layers]
  variants := by rw [variants_revise hr, variants_revise hr, dropVariants, dropVariants, h.variants]

/-- The same variant is built in both libraries, which may have been begun at different times. -/
theorem Twin.build (h : Twin lib lib') (base : LayerId) (t : Transform α) (begun begun' : Nat)
    (items : List (Item α)) :
    Twin (lib.revise (.build base t begun items)) (lib'.revise (.build base t begun' items)) where
  layers id := by
    simp only [revise, LayerTable.lookup_insert, h.layers]
  variants := by
    simp only [revise, h.variants]

/-- Definitions and removals of different layers lead to twins, whichever comes first. -/
theorem twin_revise_comm (hr : r.isBuild = false) (hr' : r'.isBuild = false)
    (htargets : r.target ≠ r'.target) (lib : Library α) :
    Twin ((lib.revise r).revise r') ((lib.revise r').revise r) where
  layers id := by
    simp only [lookup_revise]
    by_cases hid : r.target = id
    · have hid' : r'.target ≠ id := fun h => htargets (hid.trans h.symm)
      rw [if_neg hid', if_pos hid, if_pos hid]
    · rw [if_neg hid, if_neg hid]
  variants := by
    rw [variants_revise hr', variants_revise hr, dropVariants, dropVariants, variants_revise hr,
      variants_revise hr', dropVariants, dropVariants, List.filter_filter, List.filter_filter]
    simp only [Bool.and_comm]

variable [Scalar α]

omit [Legible α] in
/-- Items are built alike by libraries that are twins. -/
theorem refines_buildItems_twin {t : Transform α} {nested : LayerId → Action (Library α) LayerId}
    (hnested : ∀ source, Action.Refines (fun _ => False) Twin (nested source) (nested source)
      (fun _ => Twin) Twin) (items : List (Item α))
    {next next' : List (Item α) → Action (Library α) LayerId}
    (hnext : ∀ built, Action.Refines (fun _ => False) Twin (next built) (next' built)
      (fun _ => Twin) Twin) :
    Action.Refines (fun _ => False) Twin (items.mapM (buildItem t nested) >>= next)
      (items.mapM (buildItem t nested) >>= next') (fun _ => Twin) Twin := by
  have hrecolored : Action.Refines (fun _ => False) Twin (items.mapM (buildItem t nested) >>= next)
      ((items.map (Item.recolor id false)).mapM (buildItem (t.recolor id) nested) >>= next')
      (fun _ => Twin) Twin :=
    refines_buildItems hnested items fun built => by
      rw [Item.map_recolor_id]
      exact hnext built
  rwa [Item.map_recolor_id] at hrecolored

/-- **Building a variant.** The induction is on how deep variants are nested. -/
theorem refines_build_twin (t : Transform α) (depth : Nat) (path : List LayerId) (base : LayerId) :
    Action.Refines (fun _ => False) Twin (Library.build t depth path base)
      (Library.build t depth path base) (fun _ => Twin) Twin := by
  induction depth generalizing path base with
  | zero => exact .fail fun _ _ h => h
  | succ depth ih =>
      intro lib lib' hlib
      rw [Library.build, Action.get_bind, Action.get_bind, hlib.variants, hlib.layers base]
      split
      · exact .inr ⟨rfl, hlib⟩
      split
      · exact .inr ⟨rfl, hlib⟩
      cases hlayer : lib'.layers[base]? with
      | none => exact .inr ⟨rfl, hlib⟩
      | some layer =>
        dsimp only
        refine refines_buildItems_twin (ih (base :: path)) layer.items.toList (fun built => ?_)
          lib lib' hlib
        exact Action.Refines.bind (M := fun _ => Twin)
          (.modify fun _ _ h => h.build base t _ _ built) fun _ => .pure fun _ _ h => h

/-- Layers are defined and their variants are built alike. -/
theorem indifferent_twin : Indifferent id (Twin : Library α → Library α → Prop) where
  define l h := by
    rw [LayerTable.recolor_id]
    exact h.revised rfl
  variant t base := by
    intro lib lib' hlib
    have hcontains : lib'.layers.contains base = lib.layers.contains base := by
      rw [Std.TreeMap.contains_eq_isSome_getElem?, Std.TreeMap.contains_eq_isSome_getElem?,
        hlib.layers base]
    have hsame : t.recolor id = t := rfl
    rw [hsame, variant, Action.get_bind, Action.get_bind, hcontains]
    split
    · exact .inr ⟨rfl, hlib⟩
    split
    · exact .inr ⟨rfl, hlib⟩
    · rw [nestingBound_eq hlib.recolors]
      exact refines_build_twin t (nestingBound lib.layers) [] base lib lib' hlib

end Library

/-! ### Composers -/

namespace Composer

/-- Composers whose libraries are twins, and which draw into the same layers. -/
abbrev Twin : Composer α → Composer α → Prop := Recolors id Library.Twin

variable {c c' c'' : Composer α}

/-- Composers are twins if their libraries are twins and all else is equal. -/
theorem twin_iff : Twin c c' ↔ c.toLibrary.Twin c'.toLibrary ∧ c.top = c'.top ∧
    c.below = c'.below ∧ c.contour = c'.contour ∧ c.stepRepeats = c'.stepRepeats := by
  have hbelow : c.below.map (Layer.recolor id false) = c.below :=
    (List.map_congr_left fun l _ => LayerTable.recolor_id l).trans c.below.map_id
  constructor
  · rintro ⟨hlibrary, htop, hrest, hcontour, hstepRepeats⟩
    rw [LayerTable.recolor_id] at htop
    rw [hbelow] at hrest
    exact ⟨hlibrary, htop.symm, hrest.symm, hcontour.symm, hstepRepeats.symm⟩
  · rintro ⟨hlibrary, htop, hrest, hcontour, hstepRepeats⟩
    refine ⟨hlibrary, ?_, ?_, hcontour.symm, hstepRepeats.symm⟩
    · rw [LayerTable.recolor_id, htop]
    · rw [hbelow, hrest]

/-- Being twins is an equivalence of composers. -/
theorem equivalence_twin : Equivalence (Twin : Composer α → Composer α → Prop) where
  refl _ := twin_iff.mpr ⟨Library.equivalence_twin.refl _, rfl, rfl, rfl, rfl⟩
  symm h := by
    obtain ⟨hlibrary, htop, hbelow, hcontour, hstepRepeats⟩ := twin_iff.mp h
    exact twin_iff.mpr ⟨Library.equivalence_twin.symm hlibrary, htop.symm, hbelow.symm,
      hcontour.symm, hstepRepeats.symm⟩
  trans h h' := by
    obtain ⟨hlibrary, htop, hbelow, hcontour, hstepRepeats⟩ := twin_iff.mp h
    obtain ⟨hlibrary', htop', hbelow', hcontour', hstepRepeats'⟩ := twin_iff.mp h'
    exact twin_iff.mpr ⟨Library.equivalence_twin.trans hlibrary hlibrary', htop.trans htop',
      hbelow.trans hbelow', hcontour.trans hcontour', hstepRepeats.trans hstepRepeats'⟩

/-- Twins have the same main layer. -/
theorem Twin.main (h : Twin c c') : c.main = c'.main := by
  obtain ⟨-, htop, hbelow, -, -⟩ := twin_iff.mp h
  rw [Composer.main, Composer.main, htop, hbelow]

/-- All layers of twins make the same picture. -/
theorem Twin.ofLayers [Scalar α] (h : Twin c c') :
    Picture.ofLayers c.allLayers = Picture.ofLayers c'.allLayers := by
  have hlayers : LayerTable.Recolors id (fun _ => false) c.allLayers c'.allLayers := by
    rw [allLayers, allLayers, ← h.main]
    exact h.library.recolors.insert (by simp) fun _ _ => rfl
  rw [Picture.ofLayers_recolor hlayers]
  cases Picture.ofLayers c.allLayers with
  | error e => rfl
  | ok picture => exact congrArg Except.ok (Picture.recolor_id picture).symm

variable [Scalar α] [Legible α]

/-- The definition of an aperture does the same to the libraries of twins. -/
theorem couples_defineAperture_twin {s s' : GraphicsState α} (h : s.Recolors id s')
    (d : ApertureDefinition α) :
    Action.Couples Twin (defineAperture s d) (defineAperture s' d) := by
  unfold defineAperture
  rw [← apertureShapes_recolor h]
  refine Action.Refines.bind (refines_apertureShapes s d.template) fun shapes => ?_
  cases shapes with
  | none =>
      exact .modify fun _ _ hc => { hc with library := hc.library.revised (r := .remove _) rfl }
  | some shapes =>
      exact .modify fun _ _ hc => { hc with library := hc.library.revised (r := .define _) rfl }

/-- **The composer** does not tell twins apart. -/
theorem recolors_twin : (receiver : Receiver α (Composer α)).Recolors id Twin :=
  { recolors_callbacks Library.indifferent_twin with
    apertureDefined := fun d h => couples_defineAperture_twin h d }

end Composer

/-! ### Machines -/

namespace GraphicsState

/-- The identity relates graphics states by an equivalence. -/
theorem equivalence_recolors :
    Equivalence (Recolors id : GraphicsState α → GraphicsState α → Prop) where
  refl _ := ⟨rfl, fun _ => rfl, fun _ => rfl⟩
  symm h := ⟨h.same.symm, fun id => (h.apertures id).symm, fun id => (h.blocks id).symm⟩
  trans h h' := ⟨h.same.trans h'.same, fun id => (h.apertures id).trans (h'.apertures id),
    fun id => (h.blocks id).trans (h'.blocks id)⟩

end GraphicsState

namespace Machine

/-- The identity relates machines by an equivalence if their receivers are. -/
theorem equivalence_recolors {S : σ → σ → Prop} (hS : Equivalence S) :
    Equivalence (Recolors id S : Machine α σ → Machine α σ → Prop) where
  refl _ := ⟨GraphicsState.equivalence_recolors.refl _, rfl, rfl, hS.refl _, rfl⟩
  symm h := ⟨GraphicsState.equivalence_recolors.symm h.state, h.flashTarget.symm, h.route.symm,
    hS.symm h.receiver, h.diagnostics.symm⟩
  trans h h' := ⟨GraphicsState.equivalence_recolors.trans h.state h'.state,
    h.flashTarget.trans h'.flashTarget, h.route.trans h'.route, hS.trans h.receiver h'.receiver,
    h.diagnostics.trans h'.diagnostics⟩

variable [Scalar α]

/-- Nodes in order are carried out alike by machines of which one is the other one with its colors
left alone: both run them like their essence. -/
theorem couples_visitAll_self {S : σ → σ → Prop} (hS : Equivalence S) {r : Receiver α σ}
    (hr : r.Recolors id S) (options : Options) (nodes : List (Node α)) :
    Action.Couples (Recolors id S) (visitAll r options nodes) (visitAll r options nodes) := by
  have hequivalence := equivalence_recolors (α := α) hS
  refine Action.refines_of_ends fun m m' hm => ?_
  obtain ⟨hresult, hstate⟩ := (couples_visitAll hr options nodes).ends hm
  obtain ⟨hresult', hstate'⟩ :=
    (couples_visitAll hr options nodes).ends (hequivalence.refl m')
  exact ⟨hresult.trans hresult'.symm, hequivalence.trans hstate (hequivalence.symm hstate')⟩

variable [Legible α]

/-- Machines of which nothing but the order of definitions differs. -/
abbrev Twin : Machine α (Composer α) → Machine α (Composer α) → Prop := Recolors id Composer.Twin

omit [Scalar α] [Legible α] in
/-- Being twins is an equivalence of machines. -/
theorem equivalence_twin : Equivalence (Twin : Machine α (Composer α) → _ → Prop) :=
  equivalence_recolors Composer.equivalence_twin

/-- **Nodes in order** are carried out alike by twins. -/
theorem couples_visitAll_twin (options : Options) (nodes : List (Node α)) :
    Action.Couples Twin (visitAll Composer.receiver options nodes)
      (visitAll Composer.receiver options nodes) :=
  couples_visitAll_self Composer.equivalence_twin Composer.recolors_twin options nodes

end Machine

/-! ### Programs -/

variable [Scalar α] [Legible α]

/-- **Programs that lead to twins** with the same result have the same outcome. -/
theorem result_compile_of_twins {options : Options} {nodes nodes' : List (Node α)}
    (h : Action.Refines (fun _ => False)
      (fun m m' => m = .initial .initial ∧ m' = .initial .initial)
      (Machine.visitAll Composer.receiver options nodes)
      (Machine.visitAll Composer.receiver options nodes') (fun _ => Machine.Twin) Machine.Twin) :
    ((compile options nodes).run ()).result = ((compile options nodes').run ()).result := by
  obtain ⟨hflow, hended⟩ := h.ends ⟨rfl, rfl⟩
  obtain ⟨hclosed, hdone⟩ := Action.Refines.ends
    (Machine.couples_tell fun _ _ => Composer.recolors_twin.endOfFile) hended
  obtain ⟨hstate, hresult⟩ := Machine.run_eq Composer.receiver options nodes (.initial .initial)
  obtain ⟨hstate', hresult'⟩ := Machine.run_eq Composer.receiver options nodes' (.initial .initial)
  rw [← hstate, ← hstate'] at hdone
  have hrun : ((Machine.run Composer.receiver options nodes).run (.initial .initial)).result =
      ((Machine.run Composer.receiver options nodes').run (.initial .initial)).result := by
    rw [Action.run, Action.run, hresult, hresult', hflow, hclosed]
  have hpicture : Picture.ofLayers (composed options nodes).allLayers =
      Picture.ofLayers (composed options nodes').allLayers := hdone.receiver.ofLayers
  rw [result_compile, result_compile, hrun, hpicture]
  exact congrArg _ (funext fun _ => congrArg (Except.map · _) (funext fun _ =>
    congrArg _ hdone.diagnostics))

end Photoplot
