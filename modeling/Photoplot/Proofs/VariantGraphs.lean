import Photoplot.Proofs.LayerOrder
import Photoplot.Proofs.NestedVariants
import Photoplot.Scalar.Double

/-!
# Variants of Layers That Paste Others

The variant of a layer pastes variants of all that the layer pastes, so to build it is to walk the
graph of pastes. The walk ends for every table of layers. It gives a variant exactly when everything
that the layer reaches is there in the end and on no circle of pastes; otherwise its error names a
layer that is in the way. To be pasted from several sides is no obstacle: the variant of such a
layer is recorded when it is met again.

While variants are built they are added to the very table that is walked. So the walk is followed in
the table as it is at the time, which only grows: a layer that was there before stays as it is, and
every variant that is recorded can be drawn. What stands in the way of a layer lies on no way
through such a variant, so it stood in the way before anything was added.

## Naming convention

No layer that is known may have the name of a variant of a known layer, since it would be replaced.
A layer that is pasted without being known may. If that variant happens to be built before the layer
is met, it is pasted, and nothing is missed (`Library.not_drawable_danglingVariant`).

## Main definitions

* `LayerTable.NamesVariant`: the names that variants may take.
* `Library.PartlyBuilt`: a table with further variants, all of which can be drawn.

## Main results

* `Library.ensures_build_partlyBuilt`: what building a variant comes to, by induction on how deep
  variants are nested.
* `Library.PartlyBuilt.isFault`: an error means the same before variants were added.
* `Library.variant_ends`: building a variant of a layer when none has been built before.
-/

open Relation

namespace Photoplot

namespace LayerTable

variable {α : Type} {layers layers' : LayerTable α} {id other source : LayerId}

/-! ### Tables that grow -/

/-- What pastes a layer is known. -/
theorem Pastes.mem (h : layers.Pastes id source) : id ∈ layers := by
  obtain ⟨layer, hlayer, -⟩ := h
  exact mem_iff_lookup.mpr ⟨layer, hlayer⟩

/-- A layer that was there before pastes what it pasted. -/
theorem Includes.pastes_iff (h : layers'.Includes layers) (hid : id ∈ layers) :
    layers'.Pastes id source ↔ layers.Pastes id source := by
  rw [Pastes, Pastes, h.lookup hid]

/-- Pastes are kept when a table grows. -/
theorem Includes.pastes (h : layers'.Includes layers) (id source : LayerId)
    (hpastes : layers.Pastes id source) : layers'.Pastes id source :=
  (h.pastes_iff hpastes.mem).mpr hpastes

/-- Ways of pastes are kept when a table grows. -/
theorem Includes.transGen (h : layers'.Includes layers)
    (hway : TransGen layers.Pastes id other) : TransGen layers'.Pastes id other :=
  TransGen.mono h.pastes id other hway

/-- What is reached from a layer that can be drawn can be drawn. -/
theorem Drawable.of_reaches (h : layers.Drawable id) (hreach : layers.Reaches id other) :
    layers.Drawable other :=
  fun last hlast => h last (hreach.trans hlast)

/-- A layer that can be drawn reaches nothing new when the table grows. -/
theorem Includes.reaches_of_drawable (h : layers'.Includes layers) (hid : layers.Drawable id)
    (hreach : layers'.Reaches id other) : layers.Reaches id other := by
  induction hreach with
  | refl => exact .refl
  | tail _ hpastes ih => exact ih.tail ((h.pastes_iff (hid _ ih).1).mp hpastes)

/-- A layer that can be drawn still can when the table has grown. -/
theorem Includes.drawable (h : layers'.Includes layers) (hid : layers.Drawable id) :
    layers'.Drawable id := by
  intro other hreach
  obtain ⟨hknown, hcircle⟩ := hid other (h.reaches_of_drawable hid hreach)
  have hother := hid.of_reaches (h.reaches_of_drawable hid hreach)
  refine ⟨h.mem hknown, fun hcircle' => hcircle ?_⟩
  obtain ⟨source, hpastes, hback⟩ := TransGen.head'_iff.mp hcircle'
  rw [h.pastes_iff hknown] at hpastes
  exact .head' hpastes (h.reaches_of_drawable (hother.of_reaches (.single hpastes)) hback)

/-! ### Names of variants -/

/-- An id is the name of a variant of a known layer, or of a variant of such a variant. -/
def NamesVariant (layers : LayerTable α) (tag : String) (id : LayerId) : Prop :=
  ∃ base ∈ layers, ∃ level, id = base.nested tag (level + 1)

/-- No name that is known or pasted has a bracket. -/
def Unbracketed (layers : LayerTable α) : Prop :=
  ∀ (id : LayerId) (layer : Layer α), layers[id]? = some layer →
    ∀ other ∈ id :: Item.sources layer.items.toList, '[' ∉ other.name.toList

/-- One more layer without brackets. -/
theorem Unbracketed.insert (h : layers.Unbracketed) {layer : Layer α}
    (hlayer : ∀ other ∈ id :: Item.sources layer.items.toList, '[' ∉ other.name.toList) :
    Unbracketed (Std.TreeMap.insert layers id layer) := by
  intro id' layer' hlookup
  rw [lookup_insert] at hlookup
  split at hlookup
  · rename_i heq
    obtain rfl := Option.some.inj hlookup
    exact heq ▸ hlayer
  · exact h id' layer' hlookup

/-- What a known layer without brackets reaches is no variant. -/
theorem Unbracketed.not_namesVariant (h : layers.Unbracketed) (hid : id ∈ layers)
    (hreach : layers.Reaches id other) (tag : String) : ¬ layers.NamesVariant tag other := by
  have hname : '[' ∉ other.name.toList := by
    rcases hreach.cases_tail with rfl | ⟨middle, -, layer, hlayer, hother⟩
    · obtain ⟨layer, hlayer⟩ := mem_iff_lookup.mp hid
      exact h other layer hlayer other List.mem_cons_self
    · exact h middle layer hlayer other (List.mem_cons_of_mem _ hother)
  rintro ⟨base, -, level, rfl⟩
  exact hname (by simp [LayerId.nested_succ, LayerId.toList_name_variant])

end LayerTable

namespace Library

variable {α : Type} [Scalar α] [Legible α] {layers known : LayerTable α} {t : Transform α}
  {path : List LayerId} {recorded : List (LayerId × String)} {lib lib' : Library α}

/-! ### Tables with further variants -/

/-- A library while variants are added to a table of layers: the layers of the table are as they
were, those that were `known` at some time still are, and all variants that are recorded can be
drawn, as can their bases. -/
structure PartlyBuilt (layers : LayerTable α) (t : Transform α) (path : List LayerId)
    (known : LayerTable α) (recorded : List (LayerId × String)) (lib : Library α) : Prop
    extends lib.Underway layers t.tag path recorded where
  original : lib.layers.Includes layers
  grown : lib.layers.Includes known
  drawable : ∀ base, (base, t.tag) ∈ lib.variants →
    lib.layers.Drawable base ∧ lib.layers.Drawable (base.variant t.tag)

omit [Scalar α] in
/-- A table without variants. -/
theorem partlyBuilt_self (h : lib.variants = []) :
    lib.PartlyBuilt lib.layers t [] lib.layers [] where
  levelled := levelled_self lib t.tag
  unrecorded := by simp
  kept := List.nil_subset _
  original := .refl _
  grown := .refl _
  drawable base hentry := by simp [h] at hentry

omit [Scalar α] in
/-- What was not there in the beginning is a recorded variant. -/
theorem PartlyBuilt.added (h : lib.PartlyBuilt layers t path known recorded) {id : LayerId}
    (hid : id ∈ lib.layers) :
    id ∈ layers ∨ layers.NamesVariant t.tag id ∧
      ∃ base, (base, t.tag) ∈ lib.variants ∧ id = base.variant t.tag := by
  obtain ⟨layer, hlayer⟩ := LayerTable.mem_iff_lookup.mp hid
  obtain ⟨root, level, hroot, rfl, -, hbelow⟩ := h.levelled id layer hlayer
  cases level with
  | zero => exact .inl hroot
  | succ level =>
      exact .inr ⟨⟨root, hroot, level, rfl⟩, root.nested t.tag level,
        hbelow level (Nat.lt_succ_self level), LayerId.nested_succ _ _ _⟩

omit [Scalar α] in
/-- The variant of what is there has the name of a variant. -/
theorem PartlyBuilt.namesVariant (h : lib.PartlyBuilt layers t path known recorded) {id : LayerId}
    (hid : id ∈ lib.layers) : layers.NamesVariant t.tag (id.variant t.tag) := by
  rcases h.added hid with hid | ⟨⟨root, hroot, level, rfl⟩, -⟩
  · exact ⟨id, hid, 0, rfl⟩
  · exact ⟨root, hroot, level + 1, (LayerId.nested_succ _ _ _).symm⟩

omit [Scalar α] in
/-- A variant that is not recorded is not there either. -/
theorem PartlyBuilt.variant_notMem (h : lib.PartlyBuilt layers t path known recorded)
    (hnames : ∀ id ∈ layers, ¬ layers.NamesVariant t.tag id) {base : LayerId}
    (hbase : base ∈ lib.layers) (hnew : (base, t.tag) ∉ lib.variants) :
    base.variant t.tag ∉ lib.layers := by
  intro hmem
  rcases h.added hmem with hmem | ⟨-, other, hentry, heq⟩
  · exact hnames _ hmem (h.namesVariant hbase)
  · obtain ⟨rfl, -⟩ := LayerId.variant_inj t.bracket_notMem_tag t.bracket_notMem_tag heq
    exact hnew hentry

omit [Scalar α] in
/-- One more layer is begun. -/
theorem PartlyBuilt.begin (h : lib.PartlyBuilt layers t path known recorded) {base : LayerId}
    (hbase : (base, t.tag) ∉ lib.variants) :
    lib.PartlyBuilt layers t (base :: path) lib.layers lib.variants :=
  { h.toUnderway.begin hbase with
    original := h.original
    grown := .refl _
    drawable := h.drawable }

omit [Scalar α] in
/-- The layer that was begun last is given up. -/
theorem PartlyBuilt.leave {base : LayerId} {recorded' : List (LayerId × String)}
    (h : lib.PartlyBuilt layers t path known recorded)
    (h' : lib'.PartlyBuilt layers t (base :: path) lib.layers (recorded' ++ lib.variants)) :
    lib'.PartlyBuilt layers t path known recorded where
  levelled := h'.levelled
  unrecorded := (List.forall_mem_cons.mp h'.unrecorded).2
  kept := List.Subset.trans h.kept (List.Subset.trans (List.subset_append_right _ _) h'.kept)
  original := h'.original
  grown := h'.grown.trans h.grown
  drawable := h'.drawable

/-- **One more variant.** Nothing is replaced by it, and it can be drawn since all that it pastes
can. -/
theorem PartlyBuilt.complete (h : lib.PartlyBuilt layers t path known recorded)
    (hnames : ∀ id ∈ layers, ¬ layers.NamesVariant t.tag id) {base : LayerId} {layer : Layer α}
    (hlayer : lib.layers[base]? = some layer) (hopen : base ∉ path)
    (h' : lib'.PartlyBuilt layers t (base :: path) lib.layers
      ((Item.sources layer.items.toList).map (·, t.tag) ++ lib.variants)) (begun : Nat) :
    (lib'.revise (.build base t begun (layer.items.toList.map (Item.transform t)))).PartlyBuilt
      layers t path known ((base, t.tag) :: recorded) := by
  have hbase : base ∈ lib.layers := LayerTable.mem_iff_lookup.mpr ⟨layer, hlayer⟩
  have hlayer' : lib'.layers[base]? = some layer := h'.grown base layer hlayer
  have hnew : base.variant t.tag ∉ lib'.layers := h'.variant_notMem hnames (h'.grown.mem hbase)
    (List.forall_mem_cons.mp h'.unrecorded).1
  have hsources : ∀ source ∈ Item.sources layer.items.toList, lib'.layers.Drawable source ∧
      lib'.layers.Drawable (source.variant t.tag) := fun source hsource =>
    h'.drawable source (h'.kept (List.mem_append_left _ (List.mem_map_of_mem hsource)))
  have hgrown := LayerTable.includes_insert hnew
    (.ofItems (base.variant t.tag) (layer.items.toList.map (Item.transform t)))
  obtain ⟨root, level, hlevel⟩ := h.levelled base layer hlayer
  have hunderway := h.toUnderway.complete hlevel hopen
    ⟨h'.levelled, h'.unrecorded, List.Subset.trans (List.subset_append_right _ _) h'.kept⟩ begun
  refine ⟨⟨hunderway.levelled, hunderway.unrecorded, ?_⟩, hgrown.trans h'.original,
    hgrown.trans (h'.grown.trans h.grown), fun other hentry => ?_⟩
  · exact List.cons_subset.mpr ⟨List.mem_cons_self, hunderway.kept⟩
  rcases List.mem_cons.mp hentry with heq | hentry
  · obtain rfl : other = base := (Prod.mk.inj heq).1
    have hdrawable : lib'.layers.Drawable other := by
      refine LayerTable.drawable_of_sources (h'.grown.mem hbase) ?_
      rintro source ⟨layer', hlayer'', hsource⟩
      obtain rfl := Option.some.inj (hlayer'.symm.trans hlayer'')
      exact (hsources source hsource).1
    refine ⟨hgrown.drawable hdrawable, LayerTable.drawable_of_sources ?_ ?_⟩
    · exact Std.TreeMap.mem_insert_self
    rintro source ⟨layer', hlookup, hsource⟩
    obtain rfl := Option.some.inj
      (((LayerTable.lookup_insert _ _ _ _).trans (if_pos rfl)).symm.trans hlookup)
    rw [Layer.items_ofItems, Item.sources_map_transform] at hsource
    obtain ⟨pasted, hpasted, rfl⟩ := List.mem_map.mp hsource
    exact hgrown.drawable (hsources pasted hpasted).2
  · exact (h'.drawable other hentry).imp hgrown.drawable hgrown.drawable

/-! ### The walk -/

omit [Scalar α] in
/-- Room runs out only when as many layers are there as variants are nested. -/
theorem PartlyBuilt.length_le_size (h : lib.PartlyBuilt layers t path known recorded)
    {base : LayerId} (hnodup : path.Nodup) (hpath : ∀ p ∈ path, TransGen known.Pastes p base) :
    path.length ≤ lib.layers.size := by
  rw [← Std.TreeMap.length_keys]
  refine (hnodup.subperm fun p hp => ?_).length_le
  obtain ⟨source, hpastes, -⟩ := TransGen.head'_iff.mp (hpath p hp)
  exact Std.TreeMap.mem_keys.mpr (h.grown.mem hpastes.mem)

/-- **Building a variant**, after those in `path` have been begun, all of which led to the layer.
An error is justified by the table as it is when the building ends, unless that table has got as
large as there was room for nested variants. -/
theorem ensures_build_partlyBuilt (hnames : ∀ id ∈ layers, ¬ layers.NamesVariant t.tag id)
    {room : Nat} (depth : Nat) (path : List LayerId) (base : LayerId) (known : LayerTable α)
    (recorded : List (LayerId × String)) (hroom : room = depth + path.length)
    (hnodup : path.Nodup) (hpath : ∀ p ∈ path, TransGen known.Pastes p base) :
    (build t depth path base).Ensures (PartlyBuilt layers t path known recorded)
      (fun id lib => id = base.variant t.tag ∧
        lib.PartlyBuilt layers t path known ((base, t.tag) :: recorded))
      fun e lib => (lib.layers.IsFault [base] e ∨ room ≤ lib.layers.size) ∧
        lib.PartlyBuilt layers t path known recorded := by
  induction depth generalizing path base known recorded with
  | zero =>
      refine fun lib hlib => ⟨.inr ?_, hlib⟩
      rw [hroom, Nat.zero_add]
      exact hlib.length_le_size hnodup hpath
  | succ depth ih =>
      rw [build]
      refine Action.Ensures.get_bind fun lib hlib => ?_
      split
      · rename_i hentry
        have hkept : (base, t.tag) :: recorded ⊆ lib.variants :=
          List.cons_subset.mpr ⟨by simpa using hentry, hlib.kept⟩
        rintro _ rfl
        exact ⟨rfl, { hlib with kept := hkept }⟩
      rename_i hnew
      split
      · rename_i hmem
        have hcircle : lib.layers.OnCircle base :=
          hlib.grown.transGen (hpath base (by simpa using hmem))
        rintro _ rfl
        exact ⟨.inl (.cyclicLayer List.mem_cons_self .refl hcircle), hlib⟩
      rename_i hopen
      have hopen : base ∉ path := by simpa using hopen
      split
      · rename_i hmissing
        have hunknown : base ∉ lib.layers := by simp [LayerTable.mem_iff_lookup, hmissing]
        rintro _ rfl
        exact ⟨.inl (.layerNotFound List.mem_cons_self .refl hunknown), hlib⟩
      · rename_i layer hlayer
        have hstep : ∀ source ∈ Item.sources layer.items.toList, ∀ p ∈ base :: path,
            TransGen lib.layers.Pastes p source := fun source hsource =>
          List.forall_mem_cons.mpr ⟨.single ⟨layer, hlayer, hsource⟩, fun p hp =>
            (hlib.grown.transGen (hpath p hp)).tail ⟨layer, hlayer, hsource⟩⟩
        have hitems := Action.Ensures.mapM_done (f := buildItem t (build t depth (base :: path)))
          (g := Item.transform t)
          (P := fun done => PartlyBuilt layers t (base :: path) lib.layers
            ((Item.sources done).map (·, t.tag) ++ lib.variants))
          (E := fun e lib' => (lib'.layers.IsFault [base] e ∨ room ≤ lib'.layers.size) ∧
            lib'.PartlyBuilt layers t path known recorded) [] layer.items.toList
          fun first item rest hsplit => ensures_buildItem item
            (fun hshape lib' hlib' => by simpa [Item.sources, hshape] using hlib')
            fun source hsource => by
              have hmem : source ∈ Item.sources layer.items.toList :=
                List.mem_filterMap.mpr ⟨item, by simp [hsplit], hsource⟩
              refine (ih (base :: path) source lib.layers _ (by simp [hroom]; omega)
                (List.nodup_cons.mpr ⟨hopen, hnodup⟩) (hstep source hmem)).weaken
                (fun id lib' hlib' => ⟨hlib'.1, { hlib'.2 with kept := ?_ }⟩)
                fun e lib' hlib' => ⟨?_, hlib.leave hlib'.2⟩
              · have hsources : Item.sources ([] ++ first ++ [item]) =
                    Item.sources ([] ++ first) ++ [source] := by
                  simp [Item.sources, hsource]
                rw [hsources, List.map_append, List.append_assoc]
                exact List.Subset.trans List.perm_middle.subset hlib'.2.kept
              · -- a fault of what is pasted is one of the layer
                refine hlib'.1.imp_left fun hfault => hfault.of_reaches fun id hid => ?_
                obtain rfl := List.mem_singleton.mp hid
                exact ⟨base, List.mem_cons_self,
                  .single (hlib'.2.grown.pastes _ _ ⟨layer, hlayer, hmem⟩)⟩
        refine Action.Ensures.strengthen (Action.Ensures.bind hitems fun items =>
          Action.Ensures.of_and ?_) ?_
        · rintro rfl lib' hlib'
          exact ⟨rfl, hlib.complete hnames hlayer hopen hlib' _⟩
        · rintro _ rfl
          exact hlib.begin (by simpa using hnew)

/-! ### What stood in the way -/

omit [Scalar α] in
/-- What pastes a layer that cannot be drawn is no variant, so it pasted the layer from the
beginning. -/
theorem PartlyBuilt.pastes_of_not_drawable (h : lib.PartlyBuilt layers t path known recorded)
    {id source : LayerId} (hpastes : lib.layers.Pastes id source)
    (hsource : ¬ lib.layers.Drawable source) : layers.Pastes id source := by
  rcases h.added hpastes.mem with hid | ⟨-, base, hentry, rfl⟩
  · exact (h.original.pastes_iff hid).mp hpastes
  · exact absurd ((h.drawable base hentry).2.of_reaches (.single hpastes)) hsource

omit [Scalar α] in
/-- A layer that cannot be drawn was reached from the beginning. -/
theorem PartlyBuilt.reaches_of_not_drawable (h : lib.PartlyBuilt layers t path known recorded)
    {id other : LayerId} (hreach : lib.layers.Reaches id other)
    (hother : ¬ lib.layers.Drawable other) : layers.Reaches id other := by
  induction hreach with
  | refl => exact .refl
  | tail _ hpastes ih =>
      exact (ih fun hdrawable => hother (hdrawable.of_reaches (.single hpastes))).tail
        (h.pastes_of_not_drawable hpastes hother)

omit [Scalar α] in
/-- What is on a circle was on it from the beginning. -/
theorem PartlyBuilt.onCircle (h : lib.PartlyBuilt layers t path known recorded) {id : LayerId}
    (hcircle : lib.layers.OnCircle id) : layers.OnCircle id := by
  have hid : ¬ lib.layers.Drawable id := fun hdrawable => (hdrawable id .refl).2 hcircle
  obtain ⟨last, hreach, hpastes⟩ := TransGen.tail'_iff.mp hcircle
  exact .tail' (h.reaches_of_not_drawable hreach fun hdrawable =>
    hid (hdrawable.of_reaches (.single hpastes))) (h.pastes_of_not_drawable hpastes hid)

omit [Scalar α] in
/-- **Faults** are those of the table without the variants. -/
theorem PartlyBuilt.isFault (h : lib.PartlyBuilt layers t path known recorded) {base : LayerId}
    {e : Error} (hfault : lib.layers.IsFault [base] e) : layers.IsFault [base] e := by
  cases hfault with
  | cyclicLayer hid hreach hcircle =>
      exact .cyclicLayer hid (h.reaches_of_not_drawable hreach fun hdrawable =>
        (hdrawable _ .refl).2 hcircle) (h.onCircle hcircle)
  | layerNotFound hid hreach hmissing =>
      exact .layerNotFound hid (h.reaches_of_not_drawable hreach fun hdrawable =>
        hmissing (hdrawable _ .refl).1) fun hknown => hmissing (h.original.mem hknown)

omit [Scalar α] in
/-- A layer can be drawn as soon as all that it reached from the beginning is there and on no
circle. -/
theorem PartlyBuilt.drawable_iff (h : lib.PartlyBuilt layers t path known recorded)
    {base : LayerId} : lib.layers.Drawable base ↔
      ∀ id, layers.Reaches base id → id ∈ lib.layers ∧ ¬ layers.OnCircle id := by
  constructor
  · intro hdrawable id hreach
    obtain ⟨hknown, hcircle⟩ := hdrawable id (ReflTransGen.mono h.original.pastes base id hreach)
    exact ⟨hknown, fun hcircle' => hcircle (h.original.transGen hcircle')⟩
  · intro hreached id hreach
    by_contra hid
    have hdrawable : ¬ lib.layers.Drawable id := fun hdrawable => hid (hdrawable id .refl)
    obtain ⟨hknown, hcircle⟩ := hreached id (h.reaches_of_not_drawable hreach hdrawable)
    exact hid ⟨hknown, fun hcircle' => hcircle (h.onCircle hcircle')⟩

/-! ### The outcome -/

/-- To ask for a variant is to build it with any room that is enough. -/
theorem build_eq_variant (hvariants : lib.variants = []) (hidentity : ¬ t.isIdentity)
    (base : LayerId) {depth : Nat} (hdepth : nestingBound lib.layers ≤ depth) :
    build t depth [] base lib = variant t base lib := by
  rw [Bool.not_eq_true] at hidentity
  rw [build_eq_of_nestingBound_le lib t base hdepth]
  cases hlayer : lib.layers[base]? with
  | some layer =>
      have hcontains : lib.layers.contains base := by
        rw [Std.TreeMap.contains_eq_isSome_getElem?, hlayer]
        rfl
      rw [variant, Action.get_bind, hcontains, hidentity]
      rfl
  | none =>
      obtain ⟨bound, hbound⟩ := Nat.exists_eq_add_one_of_ne_zero
        (Nat.ne_zero_of_lt (length_levelNames_lt lib.layers t.tag))
      rw [variant_of_missing t hlayer, hbound, build, Action.get_bind, hvariants, hlayer]
      rfl

/-- What a variant comes to in the table as it is in the end. With more room than there are layers
then, no error is for want of room. -/
theorem partlyBuilt_variant (hvariants : lib.variants = [])
    (hnames : ∀ id ∈ lib.layers, ¬ lib.layers.NamesVariant t.tag id) (hidentity : ¬ t.isIdentity)
    (base : LayerId) :
    (variant t base lib).state.PartlyBuilt lib.layers t [] lib.layers [] ∧
      match (variant t base lib).result with
      | .ok id => id = base.variant t.tag ∧ (variant t base lib).state.layers.Drawable base
      | .error e => (variant t base lib).state.layers.IsFault [base] e := by
  obtain ⟨room, hroom⟩ : ∃ room, room = nestingBound lib.layers +
    (variant t base lib).state.layers.size + 1 := ⟨_, rfl⟩
  have hbuild := ensures_build_partlyBuilt hnames room [] base lib.layers [] rfl List.nodup_nil
    (by simp) lib (partlyBuilt_self hvariants)
  rw [build_eq_variant hvariants hidentity base (by omega)] at hbuild
  cases hresult : (variant t base lib).result with
  | ok id =>
      rw [hresult] at hbuild
      obtain ⟨hid, hbuilt⟩ := hbuild
      exact ⟨{ hbuilt with kept := List.nil_subset _ }, hid,
        (hbuilt.drawable base (hbuilt.kept List.mem_cons_self)).1⟩
  | error e =>
      rw [hresult] at hbuild
      exact ⟨hbuild.2, hbuild.1.resolve_right (by omega)⟩

/-- **Variants of any layer**, when none has been built before. The building ends by itself: more
room than `nestingBound` changes nothing. It gives the variant exactly when all that the layer
reaches is there when the building ends and on no circle of pastes, and if nothing of it that is not
known is named like a variant, exactly when the layer can be drawn. Otherwise the error names a
layer that is reached, and is on a circle or missing as it says, so that a layer is not called
cyclic only because several others paste it. Either way the layers that were there before stay what
they were, and only variants are added. -/
theorem variant_ends (lib : Library α) (t : Transform α) (base : LayerId)
    (hvariants : lib.variants = [])
    (hnames : ∀ id ∈ lib.layers, ¬ lib.layers.NamesVariant t.tag id)
    (hidentity : ¬ t.isIdentity) :
    (∀ depth, nestingBound lib.layers ≤ depth → build t depth [] base lib = variant t base lib) ∧
    (∀ id, (variant t base lib).result = .ok id ↔ id = base.variant t.tag ∧
      ∀ other, lib.layers.Reaches base other →
        other ∈ (variant t base lib).state.layers ∧ ¬ lib.layers.OnCircle other) ∧
    ((∀ other, lib.layers.Reaches base other → other ∉ lib.layers →
        ¬ lib.layers.NamesVariant t.tag other) →
      ∀ id, (variant t base lib).result = .ok id ↔
        id = base.variant t.tag ∧ lib.layers.Drawable base) ∧
    (∀ e, (variant t base lib).result = .error e → lib.layers.IsFault [base] e) ∧
    (∀ id ∈ lib.layers, (variant t base lib).state.layers[id]? = lib.layers[id]?) ∧
    ∀ id ∈ (variant t base lib).state.layers,
      id ∈ lib.layers ∨ lib.layers.NamesVariant t.tag id := by
  obtain ⟨hbuilt, hresult⟩ := partlyBuilt_variant hvariants hnames hidentity base
  have hok : ∀ id, (variant t base lib).result = .ok id ↔ id = base.variant t.tag ∧
      ∀ other, lib.layers.Reaches base other →
        other ∈ (variant t base lib).state.layers ∧ ¬ lib.layers.OnCircle other := by
    intro id
    rw [← hbuilt.drawable_iff]
    cases houtcome : (variant t base lib).result with
    | error e =>
        rw [houtcome] at hresult
        exact ⟨nofun, fun h => absurd h.2 hresult.not_drawable⟩
    | ok id' =>
        rw [houtcome] at hresult
        obtain ⟨rfl, hdrawable⟩ := hresult
        refine ⟨?_, fun h => h.1 ▸ rfl⟩
        rintro ⟨⟩
        exact ⟨rfl, hdrawable⟩
  refine ⟨fun depth => build_eq_variant hvariants hidentity base, hok, fun hpasted id => ?_,
    fun e he => ?_, fun id => hbuilt.original.lookup,
    fun id hid => (hbuilt.added hid).imp_right And.left⟩
  · rw [hok]
    refine and_congr_right fun _ => forall₂_congr fun other hreach => and_congr_left fun _ => ?_
    refine ⟨fun hother => ?_, hbuilt.original.mem⟩
    by_contra hunknown
    exact hpasted other hreach hunknown ((hbuilt.added hother).resolve_left hunknown).1
  · rw [he] at hresult
    exact hbuilt.isFault hresult

/-- A layer with a shape, a block that pastes it twice and a block that pastes both. -/
def sharedLayers : LayerTable Float :=
  let d10 : LayerId := ⟨"D10"⟩
  let d11 : LayerId := ⟨"D11"⟩
  let d12 : LayerId := ⟨"D12"⟩
  let layers := (∅ : LayerTable Float).insert d10 (.ofItems d10 [.shape ⟨.circle ⟨0, 0⟩ 1, .dark⟩])
  let layers := layers.insert d11
    (.ofItems d11 [.paste ⟨d10, ⟨0, 0⟩, .dark⟩, .paste ⟨d10, ⟨3, 0⟩, .clear⟩])
  layers.insert d12 (.ofItems d12 [.paste ⟨d10, ⟨0, 5⟩, .dark⟩, .paste ⟨d11, ⟨0, 0⟩, .dark⟩])

/-- These layers are known and pasted by names without brackets. -/
theorem unbracketed_sharedLayers : sharedLayers.Unbracketed := by
  have hempty : (∅ : LayerTable Float).Unbracketed := fun id layer h => by simp at h
  refine ((hempty.insert ?_).insert ?_).insert ?_ <;>
    (rw [Layer.items_ofItems]; decide)

/-- What is pasted by several others is no obstacle. -/
theorem variant_ends_sharedLayers :
    (variant ⟨.dark, .none, 0, 2⟩ ⟨"D12"⟩ ⟨sharedLayers, [], []⟩).result =
      .ok ⟨"D12[MN,R0,S2]"⟩ ∧ sharedLayers.Drawable ⟨"D12"⟩ := by
  have hknown : ⟨"D12"⟩ ∈ sharedLayers := Std.TreeMap.mem_insert_self
  have hends := variant_ends ⟨sharedLayers, [], []⟩ ⟨.dark, .none, 0, 2⟩ ⟨"D12"⟩ rfl
    (fun id hid => unbracketed_sharedLayers.not_namesVariant hid .refl _) (by decide +kernel)
  have hok : (variant ⟨.dark, .none, 0, 2⟩ ⟨"D12"⟩ ⟨sharedLayers, [], []⟩).result.isOk := by
    decide +kernel
  cases hresult : (variant ⟨.dark, .none, 0, 2⟩ ⟨"D12"⟩ ⟨sharedLayers, [], []⟩).result with
  | error e =>
      rw [hresult] at hok
      cases hok
  | ok id =>
      obtain ⟨rfl, hdrawable⟩ := (hends.2.2.1 (fun other hreach _ =>
        unbracketed_sharedLayers.not_namesVariant hknown hreach _) id).mp hresult
      have hid : (⟨"D12"⟩ : LayerId).variant (⟨.dark, .none, 0, 2⟩ : Transform Float).tag =
        ⟨"D12[MN,R0,S2]"⟩ := by decide +kernel
      exact ⟨congrArg _ hid, hdrawable⟩

/-- A layer with a shape, and a block that pastes it and a layer that is not there, by the name that
the variant of the first one will have. -/
def danglingLayers : LayerTable Float :=
  let d10 : LayerId := ⟨"D10"⟩
  let d11 : LayerId := ⟨"D11"⟩
  let layers := (∅ : LayerTable Float).insert d10 (.ofItems d10 [.shape ⟨.circle ⟨0, 0⟩ 1, .dark⟩])
  layers.insert d11 (.ofItems d11
    [.paste ⟨d10, ⟨0, 0⟩, .dark⟩, .paste ⟨⟨"D10[MN,R0,S2]"⟩, ⟨0, 0⟩, .dark⟩])

/-- **A variant of what cannot be drawn.** A layer that is not known but named like a variant is no
fault when that variant is built before the layer is met. No known layer is named like a variant
here. -/
theorem not_drawable_danglingVariant :
    (∀ id ∈ danglingLayers, ∀ (base : LayerId) (tag : String), id ≠ base.variant tag) ∧
    ¬ (⟨.dark, .none, 0, 2⟩ : Transform Float).isIdentity ∧
    (variant ⟨.dark, .none, 0, 2⟩ ⟨"D11"⟩ ⟨danglingLayers, [], []⟩).result =
      .ok ⟨"D11[MN,R0,S2]"⟩ ∧
    ¬ danglingLayers.Drawable ⟨"D11"⟩ := by
  refine ⟨fun id hid base tag => ?_, by decide +kernel, by decide +kernel, fun hdrawable => ?_⟩
  · have hcode : ∀ n : Nat, LayerId.ofAperture (.ofNumber n) ≠ base.variant tag :=
      fun n => ApertureId.IsNumbered.ne_variant ⟨n, rfl⟩ base tag
    rcases Std.TreeMap.mem_insert.mp hid with heq | hid
    · exact Std.compare_eq_iff_eq.mp heq ▸ hcode 11
    rcases Std.TreeMap.mem_insert.mp hid with heq | hid
    · exact Std.compare_eq_iff_eq.mp heq ▸ hcode 10
    · simp at hid
  · have hpastes : danglingLayers.Pastes ⟨"D11"⟩ ⟨"D10[MN,R0,S2]"⟩ := by
      refine ⟨_, (LayerTable.lookup_insert _ _ _ _).trans (if_pos rfl), ?_⟩
      rw [Layer.items_ofItems]
      decide
    exact absurd (hdrawable _ (.single hpastes)).1 (by decide +kernel)

end Library

end Photoplot
