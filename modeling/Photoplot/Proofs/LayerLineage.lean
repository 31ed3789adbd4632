import Photoplot.Proofs.LibraryInvariants
import Photoplot.Proofs.VariantHistory

/-!
# The Lineage of Layers

A layer is defined under the id of an aperture or block, or it is built as the variant of a layer
that was there before. So every layer goes back to an aperture or block by a sequence of
transforms, which the history of the library tells. Its name is the id with the tags of these
transforms, and the names of aperture codes under tags can be read back: layers have one name only
if they have one lineage, up to transforms that write alike.

The library is keyed by names, so this is what keeps one layer from taking the place of another.
What is replaced is an aperture or block that is defined again, or a variant that is built again
after its base was defined anew.

## Lineage convention

The transforms of a lineage stand in the order in which they were applied. The past of a revision
is what comes after it in the history, and the base of a variant descends from its aperture in the
past of the building.

## Main definitions

* `Library.Descends`: the aperture or block that a layer goes back to, and the transforms.
* `Revision.Repeats`: two revisions that define one aperture or block, or build one variant.
* `Library.Rooted`: a library that its history explains, with definitions of aperture codes only.

## Main results

* `Library.Rooted.exists_descends`: every layer has a lineage.
* `Library.Rooted.eq_iff`: layers with one name have one lineage.
* `Library.Rooted.repeats`: what takes the place of a layer.
* `Library.accrues_rooted`: what the changes of a library do to a rooted one.
* `layers_named_apart`: all moments of a run.
-/

namespace Photoplot

variable {α : Type} [Legible α]

/-! ### Lineages -/

/-- A revision **repeats** another one if both define one aperture or block, with geometry or
without, or if both build the variant of one layer under transforms that are alike. -/
inductive Revision.Repeats : Revision α → Revision α → Prop
  | redefine {r r' : Revision α} {id : ApertureId} (hr : r.isBuild = false)
      (hr' : r'.isBuild = false) (htarget : r.target = .ofAperture id)
      (htarget' : r'.target = .ofAperture id) : Repeats r r'
  | rebuild {base : LayerId} {t t' : Transform α} {begun begun' : Nat}
      {items items' : List (Item α)} (halike : t.Alike t') :
      Repeats (.build base t begun items) (.build base t' begun' items')

/-- A revision brings the layer that it changes. -/
theorem Revision.id_eq_target {r : Revision α} {l : Layer α} (h : r.layer? = some l) :
    l.id = r.target := by
  cases r with
  | define l' => exact congrArg Layer.id (Option.some.inj h).symm
  | remove id => cases h
  | build base t begun items =>
      rw [← Option.some.inj h]
      exact Layer.id_ofItems _ _

omit [Legible α] in
/-- A revision that builds a variant has a base and a transform. -/
theorem Revision.exists_eq_build {r : Revision α} (h : r.isBuild = true) :
    ∃ base t begun items, r = .build base t begun items := by
  cases r with
  | define _ | remove _ => cases h
  | build base t begun items => exact ⟨base, t, begun, items, rfl⟩

namespace Library

/-- In a history a layer **descends** from an aperture or block by transforms: it was defined under
the id, or built as the variant of a layer that did so before. -/
inductive Descends : List (Revision α) → LayerId → ApertureId → List (Transform α) → Prop
  | defined {past : List (Revision α)} {l : Layer α} {id : ApertureId}
      (hname : l.id = .ofAperture id) : Descends (.define l :: past) l.id id []
  | built {past : List (Revision α)} {base : LayerId} {id : ApertureId} {ts : List (Transform α)}
      (t : Transform α) (begun : Nat) (items : List (Item α)) (hbase : Descends past base id ts) :
      Descends (.build base t begun items :: past) (base.variant t.tag) id (ts ++ [t])
  | earlier {past : List (Revision α)} {x : LayerId} {id : ApertureId} {ts : List (Transform α)}
      (r : Revision α) (h : Descends past x id ts) : Descends (r :: past) x id ts

variable {history past : List (Revision α)} {x : LayerId} {id : ApertureId}
  {ts : List (Transform α)}

/-- The **name** of a layer is told by its lineage. -/
theorem Descends.name_eq (h : Descends history x id ts) :
    x = LayerId.tagged id (ts.map Transform.tag) := by
  induction h with
  | defined hname => exact hname
  | built t begun items _ ih =>
      rw [List.map_append, List.map_singleton, LayerId.tagged_append_singleton, ← ih]
  | earlier r _ ih => exact ih

/-- What a layer descends from was defined. -/
theorem Descends.exists_define (h : Descends history x id ts) :
    ∃ l, .define l ∈ history ∧ l.id = .ofAperture id := by
  induction h with
  | @defined past l id hname => exact ⟨l, List.mem_cons_self, hname⟩
  | built _ _ _ _ ih | earlier _ _ ih =>
      obtain ⟨l, hl, hname⟩ := ih
      exact ⟨l, List.mem_cons_of_mem _ hl, hname⟩

/-- The layers of a library were brought by revisions. -/
theorem exists_mem_of_lookup {l : Layer α} (h : (replay history).layers[x]? = some l) :
    ∃ r ∈ history, r.layer? = some l ∧ r.target = x := by
  induction history with
  | nil => simp [replay, empty] at h
  | cons r past ih =>
      rw [replay, lookup_revise] at h
      split at h
      · rename_i htarget
        exact ⟨r, List.mem_cons_self, h, htarget⟩
      · obtain ⟨r', hr', hlayer, htarget⟩ := ih h
        exact ⟨r', List.mem_cons_of_mem _ hr', hlayer, htarget⟩

variable [Scalar α]

/-- Whatever a revision brings descends from something, as the bases of variants were there before
the variants. -/
theorem exists_descends_of_mem (hbuilt : AllBuilt history) {r : Revision α} (hr : r ∈ history)
    {l : Layer α} (hlayer : r.layer? = some l) : ∃ id ts, Descends history l.id id ts := by
  induction history generalizing r l with
  | nil => cases hr
  | cons latest past ih =>
      have hpast : AllBuilt past := by
        cases latest with
        | define _ | remove _ => exact hbuilt
        | build _ _ _ _ => exact hbuilt.2
      rcases List.mem_cons.mp hr with rfl | hr
      · cases r with
        | define l' =>
            cases hlayer
            exact ⟨⟨l.id.name⟩, [], .defined rfl⟩
        | remove id => cases hlayer
        | build base t begun items =>
            obtain ⟨layer, hbase, -⟩ := hbuilt.1.snapshot
            obtain ⟨r', hr', hlayer', rfl⟩ := exists_mem_of_lookup hbase
            obtain ⟨id, ts, hdescends⟩ := ih hpast (List.mem_of_mem_drop hr') hlayer'
            rw [Revision.id_eq_target hlayer'] at hdescends
            rw [Revision.id_eq_target hlayer]
            exact ⟨id, ts ++ [t], .built t begun items hdescends⟩
      · obtain ⟨id, ts, hdescends⟩ := ih hpast hr hlayer
        exact ⟨id, ts, .earlier latest hdescends⟩

/-! ### Rooted libraries -/

/-- A library is **rooted** in aperture codes if its history explains it, and what was defined or
removed are aperture codes. The pending ids are still to be defined. -/
structure Rooted (pending : List ApertureId) (lib : Library α) : Prop where
  chronicled : lib.Chronicled
  codes : ∀ id ∈ pending, id.IsCode
  defined : ∀ r ∈ lib.history, r.isBuild = false → ∃ id : ApertureId, id.IsCode ∧
    r.target = .ofAperture id

/-- Without layers nothing lacks a root. -/
theorem rooted_empty {pending : List ApertureId} (hcodes : ∀ id ∈ pending, id.IsCode) :
    (empty : Library α).Rooted pending where
  chronicled := chronicled_empty
  codes := hcodes
  defined r hr := by cases hr

namespace Rooted

variable {pending : List ApertureId} {lib : Library α}

/-- A definition or removal of a pending id. -/
theorem revise (h : lib.Rooted (id :: pending)) {r : Revision α} (hr : r.isBuild = false)
    (htarget : r.target = .ofAperture id) : (lib.revise r).Rooted pending where
  chronicled := h.chronicled.revise fun _ _ _ _ heq => by simp [heq, Revision.isBuild] at hr
  codes other hother := h.codes other (List.mem_cons_of_mem _ hother)
  defined := by
    rw [history_revise]
    exact List.forall_mem_cons.mpr
      ⟨fun _ => ⟨id, h.codes id List.mem_cons_self, htarget⟩, h.defined⟩

/-- Only variants are added for a flash. -/
theorem of_grown {t : Transform α} {lib' : Library α} (h : lib.Rooted pending)
    (hgrown : lib'.Grown t lib.history) : lib'.Rooted pending := by
  obtain ⟨recent, hrecent, hbuilds⟩ := hgrown.grown
  refine ⟨hgrown.chronicled, h.codes, ?_⟩
  rw [hrecent]
  refine List.forall_mem_append.mpr ⟨fun r hr hnot => ?_, h.defined⟩
  obtain ⟨base, begun, items, rfl⟩ := hbuilds r hr
  cases hnot

/-- The root of a layer is an aperture code. -/
theorem isCode (h : lib.Rooted pending) (hx : Descends lib.history x id ts) : id.IsCode := by
  obtain ⟨l, hl, hname⟩ := hx.exists_define
  obtain ⟨id', hcode, htarget⟩ := h.defined _ hl rfl
  obtain rfl := LayerId.ofAperture_inj (hname.symm.trans htarget)
  exact hcode

/-- Every layer has a lineage. -/
theorem exists_descends (h : lib.Rooted pending) (hx : x ∈ lib.layers) :
    ∃ id ts, Descends lib.history x id ts := by
  rw [h.chronicled.replayed] at hx
  obtain ⟨l, hl⟩ := LayerTable.mem_iff_lookup.mp hx
  obtain ⟨r, hr, hlayer, rfl⟩ := exists_mem_of_lookup hl
  obtain ⟨id, ts, hdescends⟩ := exists_descends_of_mem h.chronicled.allBuilt hr hlayer
  exact ⟨id, ts, Revision.id_eq_target hlayer ▸ hdescends⟩

/-- What descends from an aperture is not the main layer. -/
theorem ne_main (h : lib.Rooted pending) (hx : Descends lib.history x id ts) : x ≠ .main := by
  rw [hx.name_eq]
  exact LayerId.tagged_ne_main (h.isCode hx)

/-- Layers have **one name** exactly if they descend from one aperture or block by transforms that
are alike. -/
theorem eq_iff (h : lib.Rooted pending) {x' : LayerId} {id' : ApertureId}
    {ts' : List (Transform α)} (hx : Descends lib.history x id ts)
    (hx' : Descends lib.history x' id' ts') :
    x = x' ↔ id = id' ∧ ts.Forall₂ Transform.Alike ts' := by
  have hplain : ∀ ts : List (Transform α), ∀ tag ∈ ts.map Transform.tag, '[' ∉ tag.toList := by
    simp [Transform.bracket_notMem_tag]
  rw [hx.name_eq, hx'.name_eq, ← Transform.map_tag_eq_map_tag_iff]
  refine ⟨LayerId.tagged_inj (h.isCode hx) (h.isCode hx') (hplain ts) (hplain ts'), ?_⟩
  rintro ⟨rfl, htags⟩
  rw [htags]

/-- Nothing is defined or removed under the name of a variant. -/
theorem target_ne_variant (h : lib.Rooted pending) {r : Revision α} (hr : r ∈ lib.history)
    (hbuild : r.isBuild = false) (base : LayerId) (tag : String) :
    r.target ≠ base.variant tag := by
  obtain ⟨id, hcode, htarget⟩ := h.defined r hr hbuild
  rw [htarget]
  exact hcode.ne_variant base tag

/-- Revisions of **one layer** repeat each other. -/
theorem repeats (h : lib.Rooted pending) {r r' : Revision α} (hr : r ∈ lib.history)
    (hr' : r' ∈ lib.history) (htarget : r.target = r'.target) : r.Repeats r' := by
  cases hbuild : r.isBuild with
  | false =>
      cases hbuild' : r'.isBuild with
      | false =>
          obtain ⟨id, -, hid⟩ := h.defined r hr hbuild
          exact .redefine hbuild hbuild' hid (htarget.symm.trans hid)
      | true =>
          obtain ⟨base, t, begun, items, rfl⟩ := Revision.exists_eq_build hbuild'
          exact absurd htarget (h.target_ne_variant hr hbuild base t.tag)
  | true =>
      obtain ⟨base, t, begun, items, rfl⟩ := Revision.exists_eq_build hbuild
      cases hbuild' : r'.isBuild with
      | false => exact absurd htarget.symm (h.target_ne_variant hr' hbuild' base t.tag)
      | true =>
          obtain ⟨base', t', begun', items', rfl⟩ := Revision.exists_eq_build hbuild'
          obtain ⟨rfl, htag⟩ :=
            LayerId.variant_inj t.bracket_notMem_tag t'.bracket_notMem_tag htarget
          exact .rebuild (Transform.tag_eq_tag_iff.mp htag)

/-- A layer **gives way** only to a revision that repeats the one that brought it. -/
theorem exists_repeats (h : lib.Rooted pending) {later : List (Revision α)} {r : Revision α}
    (hhistory : lib.history = later ++ r :: past) {l : Layer α}
    (hl : (replay past).layers[r.target]? = some l) :
    ∃ r' ∈ past, r'.layer? = some l ∧ r.Repeats r' := by
  obtain ⟨r', hr', hlayer, htarget⟩ := exists_mem_of_lookup hl
  refine ⟨r', hr', hlayer, h.repeats ?_ ?_ htarget.symm⟩
  · simp [hhistory]
  · simp [hhistory, hr']

end Rooted

/-- Every step of a composer keeps layers rooted. -/
theorem accrues_rooted : Accrues (Rooted : List ApertureId → Library α → Prop) where
  fewer h hsub := ⟨h.chronicled, fun id hid => h.codes id (hsub.subset hid), h.defined⟩
  define h hname := h.revise rfl hname
  remove h := h.revise rfl rfl
  variant _ t base := fun _ h => h.of_grown (h.chronicled.grown_variant t base)

end Library

/-! ### Programs -/

variable [Scalar α]

/-- **Layers are named apart.** In a program with aperture codes, at every moment of a run, every
layer of the library has a lineage, no layer with a lineage is named like the main layer, and two of
them have one name exactly if they descend from one aperture or block by transforms that are alike.
So a revision that found a layer in its place defined the same aperture or block again, or built the
same variant again, and the other layers stayed what they were. -/
theorem layers_named_apart (options : Options) {nodes : List (Node α)}
    (hcodes : ∀ id ∈ Node.definitionsOf nodes, id.IsCode) (k : Nat) :
    let lib := (moment Composer.receiver options nodes (.initial .initial)
      k).machine.receiver.toLibrary
    (∀ x ∈ lib.layers, ∃ id ts, Library.Descends lib.history x id ts) ∧
      (∀ x id ts, Library.Descends lib.history x id ts → x ≠ .main) ∧
      (∀ x x' id id' ts ts', Library.Descends lib.history x id ts →
        Library.Descends lib.history x' id' ts' →
          (x = x' ↔ id = id' ∧ ts.Forall₂ Transform.Alike ts')) ∧
      lib = Library.replay lib.history ∧
      ∀ later r past, lib.history = later ++ r :: past →
        (∀ x, (Library.replay (r :: past)).layers[x]? =
          if r.target = x then r.layer? else (Library.replay past).layers[x]?) ∧
        ∀ l, (Library.replay past).layers[r.target]? = some l →
          ∃ r' ∈ past, r'.layer? = some l ∧ r.Repeats r' := by
  obtain ⟨pending, hrooted⟩ :=
    Library.accrues_rooted.holds_moment options (Library.rooted_empty hcodes) k
  intro lib
  refine ⟨fun x hx => hrooted.exists_descends hx, fun x id ts hx => hrooted.ne_main hx,
    fun x x' id id' ts ts' hx hx' => hrooted.eq_iff hx hx', hrooted.chronicled.replayed,
    fun later r past hhistory => ⟨fun x => ?_, fun l hl => ?_⟩⟩
  · exact Library.lookup_revise r (Library.replay past) x
  · exact hrooted.exists_repeats hhistory hl

/-- A block pastes an aperture under a scale, and is itself pasted mirrored. -/
def scaledThenMirrored : List (Node Float) :=
  let noCoordinates : Coordinates := ⟨none, none, none, none⟩
  [.command (.defineAperture ⟨.ofNumber 10, .circle ⟨1, none⟩⟩),
    .block (.ofNumber 11)
      [.command (.selectAperture (.ofNumber 10)), .command (.scale 2),
        .command (.flash noCoordinates)],
    .command (.selectAperture (.ofNumber 11)),
    .command (.mirroring .x),
    .command (.flash noCoordinates)]

/-- The last flash leaves a variant of a variant. It descends from the aperture by two transforms,
as would any layer of its name. -/
theorem layers_named_apart_scaledThenMirrored :
    let last := moment Composer.receiver {} scaledThenMirrored (.initial .initial) 10
    let lib := last.machine.receiver.toLibrary
    (∀ id ∈ Node.definitionsOf scaledThenMirrored, id.IsCode) ∧
    lib.layers.keys = [⟨"D10"⟩, ⟨"D10[MN,R0,S2]"⟩, ⟨"D10[MN,R0,S2][MX,R0,S2]"⟩, ⟨"D11"⟩,
      ⟨"D11[MX,R0,S2]"⟩] ∧
    ∃ id ts, Library.Descends lib.history ⟨"D10[MN,R0,S2][MX,R0,S2]"⟩ id ts ∧
      ∀ id' ts', Library.Descends lib.history ⟨"D10[MN,R0,S2][MX,R0,S2]"⟩ id' ts' →
        id = id' ∧ ts.Forall₂ Transform.Alike ts' := by
  have hcodes : ∀ id ∈ Node.definitionsOf scaledThenMirrored, id.IsCode := by
    have hdefinitions : Node.definitionsOf scaledThenMirrored = [.ofNumber 10, .ofNumber 11] := rfl
    rw [hdefinitions]
    simp only [List.forall_mem_cons, List.not_mem_nil, false_implies, implies_true, and_true]
    exact ⟨ApertureId.IsNumbered.isCode ⟨10, rfl⟩, ApertureId.IsNumbered.isCode ⟨11, rfl⟩⟩
  intro last lib
  obtain ⟨hdescends, -, hapart, -⟩ := layers_named_apart {} hcodes 10
  have hkeys : lib.layers.keys = [⟨"D10"⟩, ⟨"D10[MN,R0,S2]"⟩, ⟨"D10[MN,R0,S2][MX,R0,S2]"⟩, ⟨"D11"⟩,
      ⟨"D11[MX,R0,S2]"⟩] := by decide +kernel
  obtain ⟨id, ts, hx⟩ := hdescends ⟨"D10[MN,R0,S2][MX,R0,S2]"⟩
    (Std.TreeMap.mem_keys.mp (by rw [hkeys]; decide))
  exact ⟨hcodes, hkeys, id, ts, hx, fun id' ts' hx' =>
    (hapart _ _ id id' ts ts' hx hx').mp rfl⟩

end Photoplot
