import Photoplot.Proofs.StackDiscipline
import Photoplot.Proofs.VariantHistory

/-!
# Layers That Are Missing

Unless errors are raised, a run passes over every error that is not fatal. But a picture cannot be
made if a layer that is needed is missing from the library in the end, and nothing is left to pass
over then.

A layer is pasted only after it has been in the library, so a layer that is missing has been taken
out. Only a definition without geometry does that, of an aperture that had been pasted before.

## Accounting convention

Between being looked up and being pasted a layer is held by nothing but the run itself. The ids that
are **in hand** are listed apart from the library (`Library.Accounted`).

## Main definitions

* `Library.Once`: a layer was there at some time of a history.
* `Library.Accounted`: every layer that is pasted was there at some time.

## Main results

* `Library.exists_remove_of_once`: a layer that was there and is missing was removed.
* `Library.ensures_variant_accounted`, `Composer.keeps_accounted`: what is pasted is accounted for.
* `isFatal_or_removed_of_compile`: what ends a run unless errors are raised.
* `not_isFatal_undrawable`: a program without a fatal error that is not compiled.
-/

namespace Photoplot

variable {α : Type} [Legible α]

namespace Library

/-! ### Layers that were there -/

/-- A layer was there at some time of a history. -/
def Once (history : List (Revision α)) (id : LayerId) : Prop :=
  ∃ past, past <:+ history ∧ id ∈ (replay past).layers

/-- What was there once still was after another revision. -/
theorem Once.cons {history : List (Revision α)} {id : LayerId} (h : Once history id)
    (r : Revision α) : Once (r :: history) id := by
  obtain ⟨past, hpast, hid⟩ := h
  exact ⟨past, hpast.trans (List.suffix_cons _ _), hid⟩

/-- A revision of another name changes nothing about whether a layer is there. -/
theorem mem_replay_cons_of_ne {history : List (Revision α)} {id : LayerId} {r : Revision α}
    (h : r.target ≠ id) : id ∈ (replay (r :: history)).layers ↔ id ∈ (replay history).layers := by
  rw [Std.TreeMap.mem_iff_isSome_getElem?, Std.TreeMap.mem_iff_isSome_getElem?, replay,
    lookup_revise_of_ne h]

/-- A revision of a layer removes it or makes sure that it is there. -/
theorem eq_remove_of_not_mem {history : List (Revision α)} {r : Revision α}
    (h : r.target ∉ (replay (r :: history)).layers) : r = .remove r.target := by
  cases r with
  | remove id => rfl
  | define l => exact absurd (Std.TreeMap.mem_insert_self) h
  | build base t begun items => exact absurd (Std.TreeMap.mem_insert_self) h

/-- **A layer that was there and is missing** was removed while it was there, and nothing has
brought it back since. -/
theorem exists_remove_of_once {history : List (Revision α)} {id : LayerId} (honce : Once history id)
    (hmissing : id ∉ (replay history).layers) :
    ∃ recent past, history = recent ++ .remove id :: past ∧ id ∈ (replay past).layers ∧
      ∀ r ∈ recent, r.target = id → r = .remove id := by
  induction history with
  | nil =>
      obtain ⟨past, hpast, hid⟩ := honce
      rw [List.suffix_nil.mp hpast] at hid
      exact absurd hid hmissing
  | cons r history ih =>
      by_cases hbefore : id ∈ (replay history).layers
      · -- the latest revision took it out
        by_cases htarget : r.target = id
        · subst htarget
          refine ⟨[], history, ?_, hbefore, by simp⟩
          rw [List.nil_append, ← eq_remove_of_not_mem hmissing]
        · exact absurd ((mem_replay_cons_of_ne htarget).mpr hbefore) hmissing
      · have honce : Once history id := by
          obtain ⟨past, hpast, hid⟩ := honce
          rcases List.suffix_cons_iff.mp hpast with rfl | hpast
          · exact absurd hid hmissing
          · exact ⟨past, hpast, hid⟩
        obtain ⟨recent, past, rfl, hid, hrecent⟩ := ih honce hbefore
        refine ⟨r :: recent, past, rfl, hid, List.forall_mem_cons.mpr ⟨fun htarget => ?_, hrecent⟩⟩
        subst htarget
        exact eq_remove_of_not_mem hmissing

/-! ### Libraries that paste only what was there -/

/-- Every layer that is pasted, recorded as a variant or in hand was there at some time, and only
some layers may have been removed. -/
structure Accounted (removable : LayerId → Prop) (ids : List LayerId) (lib : Library α) : Prop where
  replayed : lib = replay lib.history
  sources (id : LayerId) (layer : Layer α) : lib.layers[id]? = some layer →
    ∀ source ∈ Item.sources layer.items.toList, Once lib.history source
  variants (v : LayerId × String) : v ∈ lib.variants → Once lib.history (v.1.variant v.2)
  inHand : ∀ id ∈ ids, Once lib.history id
  removals (id : LayerId) : .remove id ∈ lib.history → removable id

variable {removable : LayerId → Prop} {ids ids' : List LayerId} {lib : Library α}

/-- Without layers nothing is pasted, recorded or removed. -/
theorem accounted_empty : (empty : Library α).Accounted removable [] where
  replayed := rfl
  sources id layer h := by simp [empty] at h
  variants := by simp [empty]
  inHand := by simp
  removals := by simp [empty]

/-- Fewer layers are accounted for as well. -/
theorem Accounted.mono (h : lib.Accounted removable ids) (hids : ∀ id ∈ ids', id ∈ ids) :
    lib.Accounted removable ids' :=
  { h with inHand := fun id hid => h.inHand id (hids id hid) }

/-- A layer of the library was there at some time. -/
theorem Accounted.once (h : lib.Accounted removable ids) {id : LayerId} (hid : id ∈ lib.layers) :
    Once lib.history id :=
  ⟨lib.history, List.suffix_rfl, h.replayed ▸ hid⟩

/-- A layer that was there once is accounted for. -/
theorem Accounted.cons (h : lib.Accounted removable ids) {id : LayerId}
    (hid : Once lib.history id) : lib.Accounted removable (id :: ids) :=
  { h with inHand := List.forall_mem_cons.mpr ⟨hid, h.inHand⟩ }

/-- **A revision** is accounted for when its layer pastes only layers in hand. -/
theorem Accounted.revise (h : lib.Accounted removable ids) {r : Revision α}
    (hlayer : ∀ (id : LayerId) (layer : Layer α), (lib.revise r).layers[id]? = some layer →
      lib.layers[id]? ≠ some layer → ∀ source ∈ Item.sources layer.items.toList, source ∈ ids)
    (hvariants : ∀ v ∈ (lib.revise r).variants, v ∈ lib.variants ∨ r.target = v.1.variant v.2 ∧
      r.target ∈ (lib.revise r).layers)
    (hremoval : ∀ id, r = .remove id → removable id) :
    (lib.revise r).Accounted removable ids := by
  have hreplayed : lib.revise r = replay (lib.revise r).history := by
    rw [history_revise, replay, ← h.replayed]
  have hkept : ∀ id, Once lib.history id → Once (lib.revise r).history id := by
    intro id hid
    rw [history_revise]
    exact hid.cons r
  refine ⟨hreplayed, fun id layer hlookup source hsource => ?_, fun v hv => ?_,
    fun id hid => hkept id (h.inHand id hid), fun id hid => ?_⟩
  · by_cases hold : lib.layers[id]? = some layer
    · exact hkept source (h.sources id layer hold source hsource)
    · exact hkept source (h.inHand source (hlayer id layer hlookup hold source hsource))
  · rcases hvariants v hv with hv | ⟨htarget, hthere⟩
    · exact hkept _ (h.variants v hv)
    · rw [← htarget]
      exact ⟨_, List.suffix_rfl, hreplayed ▸ hthere⟩
  · rw [history_revise] at hid
    rcases List.mem_cons.mp hid with hid | hid
    · exact hremoval id hid.symm
    · exact h.removals id hid

/-- A layer may be defined when all that it pastes is accounted for. -/
theorem Accounted.define (h : lib.Accounted removable ids) {l : Layer α}
    (hsources : ∀ source ∈ Item.sources l.items.toList, source ∈ ids) :
    (lib.revise (.define l)).Accounted removable ids := by
  refine h.revise (fun id layer hlookup hnew => ?_)
    (fun v hv => .inl (List.mem_filter.mp hv).1) fun _ hremove => by cases hremove
  replace hlookup := (LayerTable.lookup_insert _ _ _ _).symm.trans hlookup
  split at hlookup
  · obtain rfl := Option.some.inj hlookup
    exact hsources
  · exact absurd hlookup hnew

/-- A layer that may be removed can be, and what pastes it stays accounted for. -/
theorem Accounted.remove (h : lib.Accounted removable ids) {id : LayerId} (hid : removable id) :
    (lib.revise (.remove id)).Accounted removable ids := by
  refine h.revise (fun other layer hlookup hnew => ?_)
    (fun v hv => .inl (List.mem_filter.mp hv).1) fun other hremove => ?_
  · replace hlookup := (LayerTable.lookup_erase _ _ _).symm.trans hlookup
    split at hlookup
    · cases hlookup
    · exact absurd hlookup hnew
  · obtain rfl := Revision.remove.inj hremove
    exact hid

/-- A variant may be built when all that it pastes is accounted for, and is accounted for itself. -/
theorem Accounted.build (h : lib.Accounted removable ids) {base : LayerId} {t : Transform α}
    {begun : Nat} {items : List (Item α)} (hsources : ∀ source ∈ Item.sources items, source ∈ ids) :
    (lib.revise (.build base t begun items)).Accounted removable (base.variant t.tag :: ids) := by
  have hthere : base.variant t.tag ∈ (lib.revise (.build base t begun items)).layers :=
    Std.TreeMap.mem_insert_self
  have hbuilt : (lib.revise (.build base t begun items)).Accounted removable ids := by
    refine h.revise (fun id layer hlookup hnew => ?_) (fun v hv => ?_)
      fun _ hremove => by cases hremove
    · replace hlookup := (LayerTable.lookup_insert _ _ _ _).symm.trans hlookup
      split at hlookup
      · obtain rfl := Option.some.inj hlookup
        rwa [Layer.items_ofItems]
      · exact absurd hlookup hnew
    · rcases List.mem_cons.mp hv with rfl | hv
      · exact .inr ⟨rfl, hthere⟩
      · exact .inl hv
  exact hbuilt.cons (hbuilt.once hthere)

/-! ### Variants -/

variable [Scalar α]

/-- One more item pastes a variant that was accounted for when it was built. -/
theorem ensures_buildItem_accounted {t : Transform α}
    {nested : LayerId → Action (Library α) LayerId}
    (h : ∀ base ids, (nested base).Ensures (Accounted removable ids)
      (fun id lib => id = base.variant t.tag ∧ lib.Accounted removable (id :: ids))
      fun _ => Accounted removable ids) (done : List (Item α)) (item : Item α) :
    (buildItem t nested item).Ensures
      (Accounted removable (Item.sources (done.map (Item.transform t)) ++ ids))
      (fun built lib => built = item.transform t ∧
        lib.Accounted removable (Item.sources ((done ++ [item]).map (Item.transform t)) ++ ids))
      fun _ => Accounted removable ids := by
  cases item with
  | shape s =>
      refine fun lib hlib => ⟨rfl, hlib.mono fun id hid => ?_⟩
      simpa [Item.sources, Item.transform, Item.source?] using hid
  | paste p =>
      refine Action.Ensures.bind ((h p.source _).weaken (fun _ _ h => h)
        fun _ _ hlib => hlib.mono fun id hid => List.mem_append_right _ hid)
        fun source => Action.Ensures.of_and ?_
      rintro rfl
      refine fun lib hlib => ⟨rfl, hlib.mono fun id hid => ?_⟩
      simp only [List.map_append, Item.sources_append, List.mem_append] at hid
      simp only [List.mem_cons, List.mem_append]
      rcases hid with (hid | hid) | hid
      · exact .inr (.inl hid)
      · exact .inl (by simpa [Item.sources, Item.transform, Item.source?] using hid)
      · exact .inr (.inr hid)

/-- **Building a variant.** The induction is on how deep variants are nested. -/
theorem ensures_build_accounted (t : Transform α) (depth : Nat) (path : List LayerId)
    (base : LayerId) (ids : List LayerId) :
    (build t depth path base).Ensures (Accounted removable ids)
      (fun id lib => id = base.variant t.tag ∧ lib.Accounted removable (id :: ids))
      fun _ => Accounted removable ids := by
  induction depth generalizing path base ids with
  | zero => exact fun lib hlib => hlib
  | succ depth ih =>
      rw [build]
      refine Action.Ensures.get_bind fun lib hlib => ?_
      split
      · rename_i hrecorded
        have honce := hlib.variants (base, t.tag) (by simpa using hrecorded)
        rintro _ rfl
        exact ⟨rfl, hlib.cons honce⟩
      split
      · rintro _ rfl
        exact hlib
      split
      · rintro _ rfl
        exact hlib
      · rename_i layer hlayer
        have hitems := Action.Ensures.mapM_done
          (P := fun done => Accounted removable (Item.sources (done.map (Item.transform t)) ++ ids))
          (E := fun _ => Accounted removable ids) [] layer.items.toList
          fun first item _ _ => ensures_buildItem_accounted
            (fun source ids => ih (base :: path) source ids) ([] ++ first) item
        refine Action.Ensures.strengthen (R := Accounted removable ids) ?_ ?_
        · refine Action.Ensures.bind hitems fun items => Action.Ensures.of_and ?_
          rintro rfl lib' hlib'
          have hbuilt : (lib'.revise (.build base t lib.history.length
              (layer.items.toList.map (Item.transform t)))).Accounted removable
                (base.variant t.tag :: _) :=
            hlib'.build fun source hsource => List.mem_append_left _ hsource
          refine ⟨rfl, hbuilt.mono fun id hid => ?_⟩
          rcases List.mem_cons.mp hid with rfl | hid
          · exact List.mem_cons_self
          · exact List.mem_cons_of_mem _ (List.mem_append_right _ hid)
        · rintro _ rfl
          exact hlib

/-- **A layer under a transform** was in the library when it can be pasted. -/
theorem ensures_variant_accounted (t : Transform α) (base : LayerId) (ids : List LayerId) :
    (variant t base).Ensures (Accounted removable ids)
      (fun id lib => lib.Accounted removable (id :: ids)) fun _ => Accounted removable ids := by
  refine Action.Ensures.get_bind fun lib hlib => ?_
  split
  · rintro _ rfl
    exact hlib
  rename_i hthere
  split
  · rintro _ rfl
    exact hlib.cons (hlib.once (by simpa using hthere))
  · refine Action.Ensures.strengthen ((ensures_build_accounted t _ [] base ids).weaken
      (fun _ _ h => h.2) fun _ _ h => h) ?_
    rintro _ rfl
    exact hlib

end Library

/-! ### The composer -/

namespace Composer

omit [Legible α] in
/-- Copies of items paste nothing else than the items. -/
theorem mem_sources_of_copies [Scalar α] {items : List (Item α)} {offsets : List (Point α)}
    {source : LayerId}
    (h : source ∈ Item.sources (offsets.flatMap fun offset => items.map (.translate offset))) :
    source ∈ Item.sources items := by
  obtain ⟨item, hitem, hsource⟩ := List.mem_filterMap.mp h
  obtain ⟨offset, -, hitem⟩ := List.mem_flatMap.mp hitem
  obtain ⟨original, horiginal, rfl⟩ := List.mem_map.mp hitem
  refine List.mem_filterMap.mpr ⟨original, horiginal, ?_⟩
  cases original with
  | shape s => exact hsource
  | paste p => exact hsource

/-- What the layers on the stack paste. -/
def pastedOnStack (c : Composer α) : List LayerId :=
  (c.top :: c.below).flatMap fun l => Item.sources l.items.toList

/-- Every layer that is pasted in the library or on the stack was there at some time. -/
def Accounted (removable : LayerId → Prop) (c : Composer α) : Prop :=
  c.toLibrary.Accounted removable c.pastedOnStack

variable {removable : LayerId → Prop}

/-- In the beginning nothing is pasted, recorded or removed. -/
theorem accounted_initial : (initial : Composer α).Accounted removable :=
  Library.accounted_empty.mono (by simp [pastedOnStack, initial, Item.sources])

/-- The stack may change as long as it pastes nothing new. -/
theorem Accounted.mono {c c' : Composer α} (h : c.Accounted removable)
    (hlibrary : c'.toLibrary = c.toLibrary)
    (hstack : ∀ id ∈ c'.pastedOnStack, id ∈ c.pastedOnStack) : c'.Accounted removable := by
  rw [Accounted, hlibrary]
  exact Library.Accounted.mono h hstack

/-- Drawing shapes and edges pastes nothing. -/
theorem steady_accounted : Steady (Accounted (α := α) removable) where
  shapes c shapes h := h.mono rfl fun id hid => by
    simpa [pastedOnStack, Item.sources_append, Item.sources_shapes] using hid
  contour c _ _ h := h.mono rfl fun _ hid => hid

/-- An empty layer pastes nothing. -/
theorem keeps_accounted_begin (id : LayerId) :
    Action.Keeps (Accounted (α := α) removable) (begin id) :=
  fun c h => h.mono rfl fun other hother => by
    simpa [pastedOnStack, begin, Action.modify, Item.sources] using hother

/-- A block becomes a layer that pastes what its body did. -/
theorem keeps_accounted_endBlock (b : Block α) :
    Action.Keeps (Accounted removable) (endBlock b) := by
  refine keeps_endBlock fun c parent rest hbelow h => ?_
  have hdefined : (c.toLibrary.revise (.define c.top)).Accounted removable c.pastedOnStack :=
    Library.Accounted.define h fun source hsource =>
      List.mem_flatMap.mpr ⟨c.top, List.mem_cons_self, hsource⟩
  refine hdefined.mono fun id hid => ?_
  rw [pastedOnStack, hbelow]
  exact List.mem_append_right _ hid

variable [Scalar α]

/-- Copies of a body paste what the body did. -/
theorem keeps_accounted_endStepRepeat (r : StepRepeat α) :
    Action.Keeps (Accounted removable) (endStepRepeat r) := by
  refine keeps_endStepRepeat fun c parent rest hbelow h => h.mono rfl fun id hid => ?_
  rw [pastedOnStack, hbelow]
  rcases List.mem_append.mp hid with hid | hid
  · replace hid : id ∈ Item.sources ((offsets r.grid).foldl
      (fun l offset => l.appendTranslated c.top offset) parent).items.toList := hid
    rw [items_foldl_appendTranslated, Item.sources_append] at hid
    rcases List.mem_append.mp hid with hid | hid
    · exact List.mem_append_right _ (List.mem_append_left _ hid)
    · exact List.mem_append_left _ (mem_sources_of_copies hid)
  · exact List.mem_append_right _ (List.mem_append_right _ hid)

/-- The source of a paste is in hand until it is pasted. -/
theorem keeps_accounted_flash (s : GraphicsState α) (id : ApertureId) (center : Point α) :
    Action.Keeps (Accounted removable) (flash s id center) := by
  have hvariant : Action.Ensures (Accounted removable)
      (onLibrary (Library.variant s.transform (.ofAperture id)))
      (fun source c => c.toLibrary.Accounted removable (source :: c.pastedOnStack))
      fun _ => Accounted removable := fun c h =>
    Library.ensures_variant_accounted s.transform (.ofAperture id) c.pastedOnStack c.toLibrary h
  refine keeps_flash hvariant fun c source h => h.mono fun other hother => ?_
  rcases List.mem_append.mp hother with hother | hother
  · replace hother : other ∈ Item.sources
      (c.top.push (.paste ⟨source, center, s.transform.polarity⟩)).items.toList := hother
    rw [Layer.items_push, Item.sources_append] at hother
    rcases List.mem_append.mp hother with hother | hother
    · exact List.mem_cons_of_mem _ (List.mem_append_left _ hother)
    · obtain rfl : other = source := List.mem_singleton.mp hother
      exact List.mem_cons_self
  · exact List.mem_cons_of_mem _ (List.mem_append_right _ hother)

/-- An aperture pastes nothing. Only an aperture without geometry may be removed. -/
theorem keeps_accounted_defineAperture (s : GraphicsState α) {d : ApertureDefinition α}
    (hremovable : ∀ name, d.template = .unsupported name → removable (.ofAperture d.id)) :
    Action.Keeps (Accounted removable) (defineAperture s d) := by
  refine keeps_defineAperture (fun c shapes h => ?_) fun name hname c h =>
    Library.Accounted.remove h (hremovable name hname)
  refine Library.Accounted.define h fun source hsource => ?_
  rw [Layer.items_ofItems, Item.sources_shapes] at hsource
  cases hsource

/-- **The callbacks** keep what is pasted accounted for. -/
theorem keeps_accounted :
    Receiver.Keeps (Accounted removable)
      { (receiver : Receiver α (Composer α)) with apertureDefined := fun _ _ => pure () } where
  apertureDefined _ _ := Action.Keeps.pure _
  beginBlock _ b := keeps_accounted_begin _
  endBlock _ b := keeps_accounted_endBlock b
  beginStepRepeat _ _ := by
    refine Action.Keeps.bind (Action.Keeps.modify fun c h => h.mono rfl fun _ hid => hid)
      fun _ => ?_
    exact Action.Keeps.bind (Action.Keeps.gets _) fun count => keeps_accounted_begin _
  endStepRepeat _ r := keeps_accounted_endStepRepeat r
  flash s id _ center := keeps_accounted_flash s id center
  send s segment route := by
    cases route with
    | drawLine => exact steady_accounted.keeps_send s segment .drawLine
    | drawArc direction quadrant =>
        exact steady_accounted.keeps_send s segment (.drawArc direction quadrant)
    | regionLine => exact steady_accounted.keeps_send s segment .regionLine
    | regionArc direction quadrant =>
        exact steady_accounted.keeps_send s segment (.regionArc direction quadrant)
  beginRegion _ := Action.Keeps.modify fun c h => h.mono rfl fun _ hid => hid
  flushRegion s := steady_accounted.keeps_flushContour s
  endRegion s := steady_accounted.keeps_endRegion (fun c h => h.mono rfl fun _ hid => hid) s
  endOfFile _ := Action.Keeps.modify fun c h => h.mono rfl fun _ hid => hid

end Composer

/-! ### Runs -/

variable [Scalar α] {options : Options} {nodes : List (Node α)}

/-- The layers of the apertures that a program defines without geometry. -/
def Undrawable (nodes : List (Node α)) (id : LayerId) : Prop :=
  ∃ d name, Command.defineAperture d ∈ Node.commandsOf nodes ∧ d.template = .unsupported name ∧
    id = .ofAperture d.id

/-- After a run every layer that is pasted is accounted for. -/
theorem accounted_composed (options : Options) (nodes : List (Node α)) :
    (composed options nodes).Accounted (Undrawable nodes) := by
  have hinvariant : Machine.Invariant Composer.receiver options (· ∈ Node.commandsOf nodes)
      fun m : Machine α (Composer α) => m.receiver.Accounted (Undrawable nodes) :=
    .of_keeps Composer.keeps_accounted fun s d hd =>
      Composer.keeps_accounted_defineAperture s fun name hname => ⟨d, name, hd, hname, rfl⟩
  exact hinvariant.keeps_run (Machine.keeps_tell fun s => Composer.keeps_accounted.endOfFile s)
    nodes (fun _ hc => hc) _ Composer.accounted_initial

/-- What is pasted by a layer of a run was in the library at some time. -/
theorem once_of_pastes {id source : LayerId}
    (h : (composed options nodes).allLayers.Pastes id source) :
    Library.Once (composed options nodes).history source := by
  obtain ⟨layer, hlayer, hsource⟩ := h
  have haccounted := accounted_composed options nodes
  rw [Composer.allLayers, LayerTable.lookup_insert] at hlayer
  split at hlayer
  · obtain rfl := Option.some.inj hlayer
    refine haccounted.inHand source (List.mem_flatMap.mpr ⟨_, ?_, hsource⟩)
    rw [Composer.main_of_below_nil (Machine.grows_composed options nodes).below]
    exact List.mem_cons_self
  · exact haccounted.sources id layer hlayer source hsource

/-- The main layer is always there. -/
theorem main_mem_allLayers (options : Options) (nodes : List (Node α)) :
    .main ∈ (composed options nodes).allLayers := by
  rw [Composer.allLayers, (chronicled_composed options nodes).main_id]
  exact Std.TreeMap.mem_insert_self

/-- A layer that a run needs and has not got was removed. -/
theorem exists_remove_of_missing {id : LayerId}
    (hreach : (composed options nodes).allLayers.Reaches .main id)
    (hmissing : id ∉ (composed options nodes).allLayers) :
    Undrawable nodes id ∧ ∃ recent past,
      (composed options nodes).history = recent ++ .remove id :: past ∧
        id ∈ (Library.replay past).layers ∧ ∀ r ∈ recent, r.target = id → r = .remove id := by
  have haccounted := accounted_composed options nodes
  have honce : Library.Once (composed options nodes).history id := by
    cases hreach with
    | refl => exact absurd (main_mem_allLayers options nodes) hmissing
    | tail _ hpastes => exact once_of_pastes hpastes
  have hgone : id ∉ (Library.replay (composed options nodes).history).layers := by
    rw [← haccounted.replayed]
    exact fun hid => hmissing (Std.TreeMap.mem_insert.mpr (.inr hid))
  obtain ⟨recent, past, hhistory, hid, hrecent⟩ := Library.exists_remove_of_once honce hgone
  refine ⟨haccounted.removals id ?_, recent, past, hhistory, hid, hrecent⟩
  rw [hhistory]
  exact List.mem_append_right _ List.mem_cons_self

/-- A run itself is ended by fatal errors only. -/
theorem isFatal_of_run {e : Error} (hmode : options.errorMode ≠ .raise)
    (herror : (Machine.run Composer.receiver options nodes
      (.initial (α := α) .initial)).result = .error e) : e.isFatal := by
  rw [(Machine.run_eq Composer.receiver options nodes _).2] at herror
  cases hended : (Machine.visitAll Composer.receiver options nodes
      (.initial (α := α) .initial)).result with
  | error e' =>
      rw [hended] at herror
      obtain rfl := Except.error.inj herror
      exact Machine.isFatal_of_visitAll hmode hended
  | ok flow =>
      -- the end of the file is never refused
      rw [hended] at herror
      cases herror

/-- **What ends a program unless errors are raised.** Either a fatal error, or a layer is missing
that the main layer needs: an aperture that was pasted, was then defined again without geometry and
has not been defined anew since. -/
theorem isFatal_or_removed_of_compile {e : Error} (hmode : options.errorMode ≠ .raise)
    (herror : ((compile options nodes).run ()).result = .error e) :
    e.isFatal ∨ ∃ id, e = .layerNotFound id ∧ Undrawable nodes id ∧
      (composed options nodes).allLayers.Reaches .main id ∧
      ∃ recent past, (composed options nodes).history = recent ++ .remove id :: past ∧
        id ∈ (Library.replay past).layers ∧ ∀ r ∈ recent, r.target = id → r = .remove id := by
  rcases run_or_isFault_of_compile herror with hrun | hfault
  · exact .inl (isFatal_of_run hmode hrun)
  · cases hfault with
    | cyclicLayer => exact .inl rfl
    | @layerNotFound id fault hid hreach hmissing =>
        obtain rfl := List.mem_singleton.mp hid
        obtain ⟨hundrawable, hremoved⟩ := exists_remove_of_missing hreach hmissing
        exact .inr ⟨fault, rfl, hundrawable, hreach, hremoved⟩

/-! ### An aperture that loses its geometry -/

/-- An aperture is flashed, and then defined again without geometry while another one is
selected. -/
def undrawable : List (Node Float) :=
  [.command (.defineAperture ⟨⟨"D10"⟩, .circle ⟨1, none⟩⟩),
    .command (.selectAperture ⟨"D10"⟩),
    .command (.flash ⟨none, none, none, none⟩),
    .command (.selectAperture ⟨"D11"⟩),
    .command (.defineAperture ⟨⟨"D10"⟩, .unsupported "X"⟩)]

/-- The main layer of the example pastes a layer that is gone. -/
theorem order_undrawable :
    (composed { errorMode := .ignore } undrawable).allLayers.order =
      .error (.layerNotFound ⟨"D10"⟩) := by
  have hmain : ((composed { errorMode := .ignore } undrawable).allLayers[LayerId.main]?.map
      fun layer => layer.dependsOn.toList) = some [⟨"D10"⟩] := by decide +kernel
  have haperture : (composed { errorMode := .ignore } undrawable).allLayers[(⟨"D10"⟩ : LayerId)]?
      = none := Option.isNone_iff_eq_none.mp (by decide +kernel)
  rw [LayerTable.order, LayerTable.visit_of_dependsOn (by decide) (by decide) hmain,
    LayerTable.visitAll, LayerTable.visit]
  simp only [List.contains_nil, Bool.false_eq_true, if_false]
  rw [if_neg (by decide)]
  split
  · rfl
  · rename_i hthere
    rw [haperture] at hthere
    cases hthere

/-- The example ends with the error of that layer, although errors are ignored. -/
theorem compile_undrawable :
    ((compile { errorMode := .ignore } undrawable).run ()).result =
      .error (.layerNotFound ⟨"D10"⟩) := by
  have hrun : ((Machine.run Composer.receiver { errorMode := .ignore } undrawable).run
      (.initial .initial)).result = .ok () := Action.eq_ok_of_isOk (by decide +kernel)
  rw [result_compile, Picture.ofLayers, order_undrawable, hrun]
  rfl

/-- Errors are ignored and there is none that is fatal, but no picture is made. -/
theorem not_isFatal_undrawable :
    ∃ e, ((compile { errorMode := .ignore } undrawable).run ()).result = .error e ∧
      ¬ e.isFatal :=
  ⟨_, compile_undrawable, by decide⟩

/-- The aperture that is missing was taken out of the library by its second definition. -/
theorem isFatal_or_removed_undrawable :
    ErrorMode.ignore ≠ .raise ∧
      ((compile { errorMode := .ignore } undrawable).run ()).result =
        .error (.layerNotFound ⟨"D10"⟩) ∧
      ∃ id, Error.layerNotFound ⟨"D10"⟩ = .layerNotFound id ∧ Undrawable undrawable id ∧
        (composed { errorMode := .ignore } undrawable).allLayers.Reaches .main id ∧
        ∃ recent past, (composed { errorMode := .ignore } undrawable).history =
            recent ++ .remove id :: past ∧
          id ∈ (Library.replay past).layers ∧ ∀ r ∈ recent, r.target = id → r = .remove id :=
  ⟨by decide, compile_undrawable,
    (isFatal_or_removed_of_compile (by decide) compile_undrawable).resolve_left (by decide)⟩

end Photoplot
