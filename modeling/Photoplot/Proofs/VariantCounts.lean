import Photoplot.Proofs.LibraryInvariants
import Photoplot.Proofs.VariantHistory

/-!
# Variants Are Built Once

A variant is recorded when it is complete, and what is recorded is not built again. As long as no
aperture is defined twice nothing is dropped from the record either, so there is one building for
each pair of a base and a tag. This is true in the middle of a run as well as at its end, and
whatever errors were passed over on the way: a building that fails records only variants that are
complete.

What a flash pastes depends on the aperture and the geometric part of the transform alone, so all
flashes that agree in these paste one layer.

## Building convention

While the variant of a layer is being built, the layer is on the **path**. It is in the library, and
the pair is not recorded, because a variant that needs itself fails.

## Main definitions

* `Library.Frugal`: the record lists the variants that were built, each of them once.
* `Library.Building`: the same, while the layers of a path are being built.
* `Transform.layerOf`: the layer that stands for another one under a transform.
* `Moment.Flashes`: a flash that succeeds.

## Main results

* `Library.keeps_building_build`: building a variant, by induction on how deep variants are nested.
* `Library.accrues_frugal`: what the changes of a library do to a frugal one.
* `Moment.Flashes.pastes`: what a flash pastes.
* `variants_built_once`: all moments of a run.
-/

namespace Photoplot

variable {α : Type}

namespace Library

variable [Legible α] {pending : List ApertureId} {lib : Library α}

/-! ### Frugal libraries -/

/-- A **frugal** library has built each variant of its record once. The pending ids are still to be
defined: they have no layers yet, and none of them is defined twice. -/
structure Frugal (pending : List ApertureId) (lib : Library α) : Prop where
  nodup : lib.variants.Nodup
  counted : lib.builds = lib.variants.length
  bases : ∀ v ∈ lib.variants, v.1 ∈ lib.layers
  variants : ∀ v ∈ lib.variants, v.1.variant v.2 ∈ lib.layers
  numbered : ∀ id ∈ pending, id.IsNumbered
  undefined : ∀ id ∈ pending, LayerId.ofAperture id ∉ lib.layers
  distinct : pending.Nodup

omit [Legible α] in
/-- The empty library is frugal. -/
theorem frugal_empty (hnumbered : ∀ id ∈ pending, id.IsNumbered) (hdistinct : pending.Nodup) :
    (empty : Library α).Frugal pending where
  nodup := List.nodup_nil
  counted := rfl
  bases v hv := by simp [empty] at hv
  variants v hv := by simp [empty] at hv
  numbered := hnumbered
  undefined id _ := by simp [empty]
  distinct := hdistinct

omit [Legible α] in
/-- Fewer ids may be pending. -/
theorem Frugal.fewer {pending' : List ApertureId} (h : lib.Frugal pending)
    (hsub : pending'.Sublist pending) : lib.Frugal pending' :=
  { h with
    numbered := fun id hid => h.numbered id (hsub.subset hid)
    undefined := fun id hid => h.undefined id (hsub.subset hid)
    distinct := hsub.nodup h.distinct }

omit [Legible α] in
/-- The order of the pending ids does not matter. -/
theorem Frugal.of_perm {pending' : List ApertureId} (h : lib.Frugal pending)
    (hperm : pending.Perm pending') : lib.Frugal pending' :=
  { h with
    numbered := fun id hid => h.numbered id (hperm.mem_iff.mpr hid)
    undefined := fun id hid => h.undefined id (hperm.mem_iff.mpr hid)
    distinct := hperm.nodup_iff.mp h.distinct }

omit [Legible α] in
/-- A layer that is not there has no variants on record. -/
theorem Frugal.dropVariants_eq_self (h : lib.Frugal pending) {id : LayerId}
    (hid : id ∉ lib.layers) : lib.dropVariants id = lib.variants := by
  refine List.filter_eq_self.mpr fun v hv => bne_iff_ne.mpr ?_
  rintro rfl
  exact hid (h.bases v hv)

/-- An id that was pending gets its layer. -/
theorem Frugal.define {id : ApertureId} (h : lib.Frugal (id :: pending)) {l : Layer α}
    (hname : l.id = .ofAperture id) : (lib.revise (.define l)).Frugal pending := by
  have hunused : l.id ∉ lib.layers := hname ▸ h.undefined id List.mem_cons_self
  have hvariants : (lib.revise (.define l)).variants = lib.variants :=
    h.dropVariants_eq_self hunused
  have hkept : ∀ other ∈ lib.layers, other ∈ (lib.revise (.define l)).layers :=
    fun other hother => Std.TreeMap.mem_insert.mpr (.inr hother)
  obtain ⟨hnotMem, hdistinct⟩ := List.nodup_cons.mp h.distinct
  refine ⟨hvariants ▸ h.nodup, hvariants ▸ h.counted, fun v hv => ?_, fun v hv => ?_,
    fun other hother => h.numbered other (List.mem_cons_of_mem _ hother), fun other hother => ?_,
    hdistinct⟩
  · exact hkept _ (h.bases v (hvariants ▸ hv))
  · exact hkept _ (h.variants v (hvariants ▸ hv))
  · intro hmem
    rcases Std.TreeMap.mem_insert.mp hmem with heq | hmem
    · have hid := hname.symm.trans (Std.compare_eq_iff_eq.mp heq)
      exact hnotMem (LayerId.ofAperture_inj hid ▸ hother)
    · exact h.undefined other (List.mem_cons_of_mem _ hother) hmem

/-- An id that was pending gets no layer. -/
theorem Frugal.remove {id : ApertureId} (h : lib.Frugal (id :: pending)) :
    (lib.revise (.remove (.ofAperture id))).Frugal pending := by
  have hunused := h.undefined id List.mem_cons_self
  have hvariants : (lib.revise (.remove (.ofAperture id))).variants = lib.variants :=
    h.dropVariants_eq_self hunused
  have hmem : ∀ other, other ∈ (lib.revise (.remove (.ofAperture id))).layers ↔
      other ∈ lib.layers := by
    intro other
    refine Std.TreeMap.mem_erase.trans (and_iff_right_of_imp fun hother heq => hunused ?_)
    exact Std.compare_eq_iff_eq.mp heq ▸ hother
  have hfewer := h.fewer (List.sublist_cons_self id pending)
  exact ⟨hvariants ▸ h.nodup, hvariants ▸ h.counted,
    fun v hv => (hmem _).mpr (h.bases v (hvariants ▸ hv)),
    fun v hv => (hmem _).mpr (h.variants v (hvariants ▸ hv)), hfewer.numbered,
    fun other hother => (hmem _).not.mpr (hfewer.undefined other hother), hfewer.distinct⟩

/-! ### Building variants -/

variable {t : Transform α} {path : List LayerId} {base : LayerId}

/-- A frugal library while variants of the layers in `path` are being built. -/
structure Building (pending : List ApertureId) (t : Transform α) (path : List LayerId)
    (lib : Library α) : Prop where
  frugal : lib.Frugal pending
  known : ∀ p ∈ path, p ∈ lib.layers
  unrecorded : ∀ p ∈ path, (p, t.tag) ∉ lib.variants

/-- At first no variant is being built. -/
theorem Frugal.building (h : lib.Frugal pending) (t : Transform α) :
    lib.Building pending t [] :=
  ⟨h, by simp, by simp⟩

/-- A layer may be taken off the path. -/
theorem Building.leave (h : lib.Building pending t (base :: path)) : lib.Building pending t path :=
  ⟨h.frugal, fun p hp => h.known p (List.mem_cons_of_mem _ hp),
    fun p hp => h.unrecorded p (List.mem_cons_of_mem _ hp)⟩

/-- A variant is complete, and leaves the path. -/
theorem Building.complete (h : lib.Building pending t (base :: path)) (hbase : base ∉ path)
    (begun : Nat) (items : List (Item α)) :
    (lib.revise (.build base t begun items)).Building pending t path := by
  have hkept : ∀ other ∈ lib.layers,
      other ∈ (lib.revise (.build base t begun items)).layers :=
    fun other hother => Std.TreeMap.mem_insert.mpr (.inr hother)
  have hcounted : (lib.revise (.build base t begun items)).builds = lib.builds + 1 :=
    List.countP_cons_of_pos rfl
  refine ⟨⟨?_, ?_, ?_, ?_, h.frugal.numbered, fun id hid => ?_, h.frugal.distinct⟩,
    fun p hp => hkept p (h.leave.known p hp), fun p hp hentry => ?_⟩
  · exact List.nodup_cons.mpr ⟨h.unrecorded base List.mem_cons_self, h.frugal.nodup⟩
  · rw [hcounted, h.frugal.counted]
    rfl
  · exact List.forall_mem_cons.mpr ⟨hkept base (h.known base List.mem_cons_self),
      fun v hv => hkept _ (h.frugal.bases v hv)⟩
  · exact List.forall_mem_cons.mpr ⟨Std.TreeMap.mem_insert_self,
      fun v hv => hkept _ (h.frugal.variants v hv)⟩
  · intro hmem
    rcases Std.TreeMap.mem_insert.mp hmem with heq | hmem
    · exact (h.frugal.numbered id hid).ne_variant _ _ (Std.compare_eq_iff_eq.mp heq).symm
    · exact h.frugal.undefined id hid hmem
  · rcases List.mem_cons.mp hentry with heq | hentry
    · obtain ⟨rfl, -⟩ := Prod.mk.inj heq
      exact hbase hp
    · exact h.leave.unrecorded p hp hentry

variable [Scalar α]

/-- **Building a variant** of a layer that is not recorded adds one to the buildings and one to the
record, and before it those of the layers that it needs. -/
theorem keeps_building_build (pending : List ApertureId) (t : Transform α) (depth : Nat)
    (path : List LayerId) (base : LayerId) :
    Action.Keeps (Building pending t path) (build t depth path base) := by
  have hbuild : (build t depth path base).Ensures (Building pending t path)
      (fun id lib => id = base.variant t.tag ∧ lib.Building pending t path)
      fun _ => Building pending t path := by
    induction depth generalizing path base with
    | zero => exact fun lib hlib => hlib
    | succ depth ih =>
        rw [build]
        refine Action.Ensures.get_bind fun lib hlib => ?_
        split
        · rintro _ rfl
          exact ⟨rfl, hlib⟩
        rename_i hrecorded
        split
        · rintro _ rfl
          exact hlib
        rename_i hopen
        split
        · rintro _ rfl
          exact hlib
        · rename_i layer hlayer
          have hbegun : lib.Building pending t (base :: path) := by
            refine ⟨hlib.frugal, List.forall_mem_cons.mpr ⟨?_, hlib.known⟩,
              List.forall_mem_cons.mpr ⟨by simpa using hrecorded, hlib.unrecorded⟩⟩
            exact LayerTable.mem_iff_lookup.mpr ⟨layer, hlayer⟩
          have hitems := Action.Ensures.mapM fun item (_ : item ∈ layer.items.toList) =>
            ensures_buildItem item (fun _ _ h => h) fun source _ => ih (base :: path) source
          refine Action.Ensures.strengthen (R := Building pending t (base :: path)) ?_ ?_
          · refine Action.Ensures.bind (hitems.weaken (fun _ _ h => h) fun _ _ h => h.leave)
              fun items => Action.Ensures.of_and ?_
            rintro rfl lib' hlib'
            exact ⟨rfl, hlib'.complete (by simpa using hopen) _ _⟩
          · rintro _ rfl
            exact hbegun
  exact (hbuild.weaken (fun _ _ h => h.2) fun _ _ h => h).keeps

/-- Looking a variant up keeps a library frugal, whether or not it succeeds. -/
theorem keeps_frugal_variant (pending : List ApertureId) (t : Transform α) (base : LayerId) :
    Action.Keeps (Frugal pending) (variant t base) := by
  intro lib hlib
  rw [variant, Action.get_bind]
  split
  · exact hlib
  split
  · exact hlib
  · exact (keeps_building_build pending t _ [] base lib (hlib.building t)).frugal

/-- Frugality accrues: definitions and removals use their ids up. -/
theorem accrues_frugal : Accrues (Frugal : List ApertureId → Library α → Prop) where
  fewer h := fun ⟨_, hperm, hsub⟩ => (h.fewer hsub).of_perm hperm
  define h hname := h.define hname
  remove h := h.remove
  variant := keeps_frugal_variant

end Library

/-! ### What is pasted -/

/-- The layer that stands for a layer under a transform: the layer itself or its variant. -/
def Transform.layerOf [Scalar α] [Legible α] (t : Transform α) (base : LayerId) : LayerId :=
  if t.isIdentity then base else base.variant t.tag

variable [Scalar α] [Legible α]

/-- What stands for a layer does not depend on the polarity of the transform. -/
theorem Transform.SameGeometry.layerOf_eq {t t' : Transform α} (h : t.SameGeometry t')
    (base : LayerId) : t.layerOf base = t'.layerOf base := by
  have hidentity : t.isIdentity = t'.isIdentity := by
    rw [isIdentity, isIdentity, h.mirroring, h.rotation, h.scale]
  have htag : t.tag = t'.tag := by rw [tag, tag, h.mirroring, h.rotation, h.scale]
  rw [layerOf, layerOf, hidentity, htag]

/-- A layer under a transform is always the same one. -/
theorem Library.eq_layerOf_of_variant {lib : Library α} {t : Transform α} {base source : LayerId}
    (h : (variant t base lib).result = .ok source) : source = t.layerOf base := by
  have hbuild : ∀ depth path, (build t depth path base).Ensures (fun _ => True)
      (fun id _ => id = base.variant t.tag) fun _ _ => True := by
    rintro (_ | depth) path
    · exact fun _ _ => trivial
    rw [build]
    refine Action.Ensures.get_bind fun lib _ => ?_
    split
    · exact fun _ _ => rfl
    split
    · exact fun _ _ => trivial
    split
    · exact fun _ _ => trivial
    · refine Action.Ensures.strengthen (R := fun _ => True) ?_ fun _ _ => trivial
      exact Action.Ensures.bind (Action.Keeps.ensures fun _ _ => trivial) fun items _ _ => rfl
  have hvariant : (variant t base).Ensures (fun _ => True) (fun id _ => id = t.layerOf base)
      fun _ _ => True := by
    refine Action.Ensures.get_bind fun lib _ => ?_
    split
    · exact fun _ _ => trivial
    rw [Transform.layerOf]
    split
    · exact fun _ _ => rfl
    · exact (hbuild _ []).strengthen fun _ _ => trivial
  have hstep := hvariant lib trivial
  rw [h] at hstep
  exact hstep

namespace Composer

/-- A flash that succeeds pastes the layer of the aperture under the transform. -/
theorem top_of_flash {c : Composer α} {s : GraphicsState α} {id : ApertureId} {center : Point α}
    (h : (flash s id center c).result = .ok ()) : (flash s id center c).state.top =
      c.top.push (.paste ⟨s.transform.layerOf (.ofAperture id), center, s.transform.polarity⟩) := by
  cases hopen : c.stack.any (·.id == .ofAperture id) with
  | true =>
      rw [flash, Action.gets_bind, hopen] at h
      cases h
  | false =>
      cases hvariant : (Library.variant s.transform (.ofAperture id) c.toLibrary).result with
      | error e =>
          rw [(flash_of_error hopen hvariant).1] at h
          cases h
      | ok source =>
          obtain rfl := Library.eq_layerOf_of_variant hvariant
          rw [(flash_of_variant hopen hvariant).2]

/-! ### The library of a composer -/

/-- The library of a composer is frugal. -/
def Spares (pending : List ApertureId) (c : Composer α) : Prop := c.toLibrary.Frugal pending

/-- **The callbacks and the library.** A frugal library stays frugal whatever happens to it. -/
theorem refines_receiver_frugal :
    (receiver : Receiver α (Composer α)).Refines (fun _ => False) Scope.all
      (fun bodies fresh c c' => c = c' ∧ Spares (pendingIds bodies fresh) c) receiver :=
  Library.accrues_frugal.refines_receiver

end Composer

/-! ### Flashes -/

omit [Legible α] in
/-- The flash of an aperture outside of regions tells the receiver of it, in a state with the same
transform. -/
theorem Machine.receiver_of_flash {σ : Type} {r : Receiver α σ} {c : Coordinates} {m : Machine α σ}
    {resolved : Resolved α} (houtside : m.state.inRegion = false)
    (hcurrent : m.state.current = .ok resolved) (hok : (flash r c m).result = .ok ()) :
    ∃ (s : GraphicsState α) (target : FlashTarget α),
      s.transform = m.state.transform ∧
        (r.flash s resolved.id target s.target m.receiver).result = .ok () ∧
        (flash r c m).state.receiver =
          (r.flash s resolved.id target s.target m.receiver).state := by
  rw [flash] at hok ⊢
  obtain ⟨_, hload, hloaded⟩ := Action.exists_of_bind_eq_ok hok
  rw [(Action.bind_eq_of_ok hload).2]
  -- reading the coordinates changes nothing that matters for the flash
  obtain ⟨houtside', hcurrent', htransform⟩ :
      let s := (onState (GraphicsState.load c) m).state.state
      s.inRegion = false ∧ s.current = .ok resolved ∧ s.transform = m.state.transform :=
    GraphicsState.keeps_load (P := fun s => s.inRegion = false ∧ s.current = .ok resolved ∧
      s.transform = m.state.transform) (fun _ _ _ h => h) c m.state ⟨houtside, hcurrent, rfl⟩
  have hreceiver : (onState (GraphicsState.load c) m).state.receiver = m.receiver := rfl
  generalize (onState (GraphicsState.load c) m).state = m' at *
  have hresolved : (Action.ofExcept m'.state.current m').result = .ok resolved := hcurrent'
  rw [Action.gets_bind, houtside'] at hloaded ⊢
  simp only [Bool.false_eq_true, if_false] at hloaded ⊢
  rw [(Action.bind_eq_of_ok hresolved).1] at hloaded
  rw [(Action.bind_eq_of_ok hresolved).2]
  change ((Action.gets (fun m : Machine α σ => m.flashTarget) >>= _) m').result = _ at hloaded
  change ∃ s target, _ ∧ _ ∧
    ((Action.gets (fun m : Machine α σ => m.flashTarget) >>= _) m').state.receiver = _
  rw [Action.gets_bind] at hloaded
  simp only [Action.gets_bind]
  cases htarget : m'.flashTarget with
  | none =>
      rw [htarget] at hloaded
      cases hloaded
  | some target =>
      rw [htarget] at hloaded
      dsimp only at hloaded ⊢
      obtain ⟨_, htold, -⟩ := Action.exists_of_bind_eq_ok hloaded
      rw [(Action.bind_eq_of_ok htold).2]
      exact ⟨m'.state, target, htransform, hreceiver ▸ htold, by rw [← hreceiver]; rfl⟩

/-- At a moment an aperture is **flashed** under a transform: a flash comes next, it is outside of
regions, and it succeeds. -/
inductive Moment.Flashes : Moment α (Composer α) → ApertureId → Transform α → Prop
  | flash {m : Machine α (Composer α)} {c : Coordinates} {rest : List (Node α)}
      {bodies : List (OpenBody α)} {resolved : Resolved α} (houtside : m.state.inRegion = false)
      (hcurrent : m.state.current = .ok resolved)
      (hok : (Machine.perform Composer.receiver (.flash c) m).result = .ok ()) :
      Flashes (.visiting m (.command (.flash c) :: rest) bodies) resolved.id m.state.transform

/-- A flash pastes the layer of the aperture under the transform, and nothing else. -/
theorem Moment.Flashes.pastes {x : Moment α (Composer α)} {id : ApertureId} {t : Transform α}
    (h : x.Flashes id t) (options : Options) : ∃ center,
      (x.step Composer.receiver options).machine.receiver.top = x.machine.receiver.top.push
        (.paste ⟨t.layerOf (.ofAperture id), center, t.polarity⟩) := by
  cases h with
  | @flash m c rest bodies resolved houtside hcurrent hok =>
      obtain ⟨s, target, htransform, hresult, hstate⟩ :=
        Machine.receiver_of_flash houtside hcurrent hok
      refine ⟨s.target, ?_⟩
      rw [step_command, hok]
      show (Machine.flash Composer.receiver c m).state.receiver.top = _
      rw [hstate, ← htransform]
      exact Composer.top_of_flash hresult

/-- **Variants are built once.** In a program that defines no aperture twice, at every moment of a
run, as many variants have been built as there are pairs of a base and a tag on record, and these
are in the library. All flashes of an aperture that succeed under transforms with one mirroring,
rotation and scale paste one layer, with the polarity in force. -/
theorem variants_built_once (options : Options) {nodes : List (Node α)}
    (hnumbered : ∀ id ∈ Node.definitionsOf nodes, id.IsNumbered)
    (hdistinct : (Node.definitionsOf nodes).Nodup) :
    let reached := moment Composer.receiver options nodes (.initial .initial)
    (∀ k, let lib := (reached k).machine.receiver.toLibrary
      lib.variants.Nodup ∧ lib.builds = lib.variants.length ∧
        ∀ v ∈ lib.variants, v.1.variant v.2 ∈ lib.layers) ∧
    ∀ (id : ApertureId) (t : Transform α), ∃ source, ∀ k t', (reached k).Flashes id t' →
      t'.SameGeometry t → ∃ center, (reached (k + 1)).machine.receiver.top =
        (reached k).machine.receiver.top.push (.paste ⟨source, center, t'.polarity⟩) := by
  intro reached
  refine ⟨fun k => ?_, fun id t => ⟨t.layerOf (.ofAperture id), fun k t' hflash hsame => ?_⟩⟩
  · have hfrugal := Machine.holds_moment Composer.refines_receiver_frugal options
      (m := .initial .initial) (Library.frugal_empty hnumbered hdistinct) k
    exact ⟨hfrugal.nodup, hfrugal.counted, hfrugal.variants⟩
  · rw [← hsame.layerOf_eq]
    have hnext : reached (k + 1) = (reached k).step Composer.receiver options := moment_succ k
    rw [hnext]
    exact hflash.pastes options

/-- A block pastes an aperture and is itself pasted twice under a scale, once in each polarity. -/
def pastedTwiceScaled : List (Node Float) :=
  let noCoordinates : Coordinates := ⟨none, none, none, none⟩
  [.command (.defineAperture ⟨.ofNumber 10, .circle ⟨1, none⟩⟩),
    .block (.ofNumber 11)
      [.command (.selectAperture (.ofNumber 10)), .command (.flash noCoordinates)],
    .command (.selectAperture (.ofNumber 11)),
    .command (.scale 2),
    .command (.flash noCoordinates),
    .command (.polarity .clear),
    .command (.flash noCoordinates)]

/-- After the last flash there are two variants, that of the block and that of the aperture. -/
theorem variants_built_once_pastedTwiceScaled :
    let last := moment Composer.receiver {} pastedTwiceScaled (.initial .initial) 11
    last.machine.receiver.variants.Nodup ∧ last.machine.receiver.builds = 2 ∧
      last.machine.receiver.variants.length = 2 := by
  have hdefinitions : Node.definitionsOf pastedTwiceScaled = [.ofNumber 10, .ofNumber 11] := rfl
  have hnumbered : ∀ id ∈ Node.definitionsOf pastedTwiceScaled, id.IsNumbered := by
    rw [hdefinitions]
    simp [ApertureId.IsNumbered]
  have hdistinct : (Node.definitionsOf pastedTwiceScaled).Nodup := by
    rw [hdefinitions]
    decide
  obtain ⟨hnodup, hcounted, -⟩ := (variants_built_once {} hnumbered hdistinct).1 11
  have hbuilds : (moment Composer.receiver {} pastedTwiceScaled (.initial .initial)
      11).machine.receiver.builds = 2 := by decide +kernel
  exact ⟨hnodup, hbuilds, hcounted.symm.trans hbuilds⟩

end Photoplot
