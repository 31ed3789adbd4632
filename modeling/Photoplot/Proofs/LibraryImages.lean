import Photoplot.Layer.Library
import Photoplot.Proofs.Inliner
import Photoplot.Proofs.LayerNames
import Photoplot.Proofs.LayerOrder
import Photoplot.Proofs.Refinement
import Photoplot.Proofs.Scope
import Photoplot.Proofs.TransformLaws

/-!
# What Layers Depict

A layer depicts placed shapes, which are found by following its pastes. Its variant under a
transform depicts the same shapes transformed. This is because the variant pastes variants of what
the layer pastes, all of them under the same transform, and because transforms are additive.

The record of variants can be relied on only if different transforms have different tags, and if no
layer is ever replaced. Both are true for a program whose operands have different texts and that
defines every aperture once.

## Main definitions

* `LayerTable.Depicts`: what items depict, by the layers of a table.
* `Library.Sound`: every variant in the record is what it should be.
* `Library.Enriched`: a library with further variants.

## Main results

* `Library.Sound.depicts_transform`: what the items of a variant depict, by induction on what those
  of its base depict.
* `Library.ensures_build_enriched`, `Library.ensures_variant`: asking for a variant gives one, and
  fails only because of a layer that depends on itself.
-/

namespace Photoplot

/-! ### Pasted shapes -/

namespace PlacedShape

/-- To move what was pasted is to paste it elsewhere. -/
theorem map_pasted_translate (inner : List (PlacedShape ℝ)) (polarity : Polarity)
    (center offset : Point ℝ) : (inner.map (pasted polarity center)).map (translate offset) =
      inner.map (pasted polarity (center + offset)) := by
  rw [List.map_map]
  refine List.map_congr_left fun x _ => ?_
  simp only [Function.comp_apply, pasted, translate, reshape, Shape.translate_translate]

/-- To transform what was pasted is to paste what was transformed. -/
theorem map_pasted_applyShape (inner : List (PlacedShape ℝ)) (polarity : Polarity)
    (center : Point ℝ) (t : Transform ℝ) :
    (inner.map (pasted polarity center)).map (reshape t.applyShape) =
      (inner.map (reshape t.applyShape)).map (pasted polarity (t.applyPoint center)) := by
  rw [List.map_map, List.map_map]
  refine List.map_congr_left fun x _ => ?_
  simp only [Function.comp_apply, pasted, reshape, Transform.applyShape_eq_translate]

end PlacedShape

/-! ### What items depict -/

namespace LayerTable

section

variable {α : Type} [Scalar α] {layers layers' : LayerTable α}

/-- **What items depict** when every paste is replaced by what the pasted layer depicts. -/
inductive Depicts (layers : LayerTable α) : List (Item α) → List (PlacedShape α) → Prop where
  | nil : Depicts layers [] []
  | shape {s : Shape α} {rest : List (Item α)} {placed : List (PlacedShape α)} :
      Depicts layers rest placed → Depicts layers (.shape s :: rest) (.drawn s :: placed)
  | paste {p : Paste α} {layer : Layer α} {rest : List (Item α)}
      {inner placed : List (PlacedShape α)} :
      layers[p.source]? = some layer → Depicts layers layer.items.toList inner →
      Depicts layers rest placed →
      Depicts layers (.paste p :: rest) (inner.map (.pasted p.polarity p.center) ++ placed)

/-- Items in a row depict what each part depicts. -/
theorem Depicts.append {items items' : List (Item α)} {placed placed' : List (PlacedShape α)}
    (h : layers.Depicts items placed) (h' : layers.Depicts items' placed') :
    layers.Depicts (items ++ items') (placed ++ placed') := by
  induction h with
  | nil => exact h'
  | shape _ ih => exact .shape ih
  | paste hlayer hinner _ _ ih =>
      rw [List.cons_append, List.append_assoc]
      exact .paste hlayer hinner ih

/-- Items depict the same when the table grows. -/
theorem Depicts.extend {items : List (Item α)} {placed : List (PlacedShape α)}
    (h : layers.Depicts items placed) (hincludes : layers'.Includes layers) :
    layers'.Depicts items placed := by
  induction h with
  | nil => exact .nil
  | shape _ ih => exact .shape ih
  | paste hlayer _ _ ihinner ih => exact .paste (hincludes _ _ hlayer) ihinner ih

/-- A layer that is there depicts the same when the table grows. -/
theorem Includes.rel_depicts (h : layers'.Includes layers) {layer : Option (Layer α)}
    {placed : Option (List (PlacedShape α))}
    (hrel : Option.Rel (fun layer placed => layers.Depicts layer.items.toList placed) layer
      placed) :
    Option.Rel (fun layer placed => layers'.Depicts layer.items.toList placed) layer placed := by
  cases hrel with
  | none => exact .none
  | some hdepicts => exact .some (hdepicts.extend h)

/-- Shapes depict themselves. -/
theorem depicts_shapes (shapes : List (Shape α)) :
    layers.Depicts (shapes.map .shape) (shapes.map .drawn) := by
  induction shapes with
  | nil => exact .nil
  | cons s rest ih => exact .shape ih

/-- What is pasted is there. -/
theorem Depicts.lookup_source {items : List (Item α)} {placed : List (PlacedShape α)}
    (h : layers.Depicts items placed) {source : LayerId} (hsource : source ∈ Item.sources items) :
    ∃ layer, layers[source]? = some layer := by
  induction h with
  | nil => simp [Item.sources] at hsource
  | shape _ ih => exact ih hsource
  | paste hlayer _ _ _ ih =>
      rcases List.mem_cons.mp hsource with rfl | hrest
      · exact ⟨_, hlayer⟩
      · exact ih hrest

end

/-- Moved items depict moved shapes. -/
theorem Depicts.translate {layers : LayerTable ℝ} {items : List (Item ℝ)}
    {placed : List (PlacedShape ℝ)} (h : layers.Depicts items placed) (offset : Point ℝ) :
    layers.Depicts (items.map (.translate offset)) (placed.map (.translate offset)) := by
  induction h with
  | nil => exact .nil
  | shape _ ih => exact .shape ih
  | @paste p layer rest inner placed hlayer hinner _ _ ih =>
      rw [List.map_append, PlacedShape.map_pasted_translate]
      exact .paste (p := { p with center := p.center + offset }) hlayer hinner ih

/-- Copies of items depict copies of shapes. -/
theorem Depicts.copies {layers : LayerTable ℝ} {items : List (Item ℝ)}
    {placed : List (PlacedShape ℝ)} (h : layers.Depicts items placed) (offsets : List (Point ℝ)) :
    layers.Depicts (offsets.flatMap fun offset => items.map (.translate offset))
      (offsets.flatMap fun offset => placed.map (.translate offset)) := by
  induction offsets with
  | nil => exact .nil
  | cons offset rest ih => exact (h.translate offset).append ih

end LayerTable

/-! ### Tags that tell transforms apart -/

section

variable {α : Type}

/-- Two transforms with the same geometric part. -/
structure Transform.SameGeometry (t t' : Transform α) : Prop where
  mirroring : t.mirroring = t'.mirroring
  rotation : t.rotation = t'.rotation
  scale : t.scale = t'.scale

/-- A transform with operands of a scope. -/
structure Transform.Within (scope : Scope α) (t : Transform α) : Prop where
  rotation : scope.rotations t.rotation
  scale : scope.scales t.scale

variable [Legible α]

/-- The tags of transforms with operands of a scope tell their geometric parts apart. -/
def Scope.TellsApart (scope : Scope α) : Prop :=
  ∀ t t' : Transform α, t.Within scope → t'.Within scope → t.tag = t'.tag → t.SameGeometry t'

/-- Texts that tell operands apart tell transforms apart. -/
theorem Scope.tellsApart_of_texts {scope : Scope α}
    (hrotations : ∀ x y, scope.rotations x → scope.rotations y →
      Legible.text x = Legible.text y → x = y)
    (hscales : ∀ x y, scope.scales x → scope.scales y → Legible.text x = Legible.text y → x = y) :
    scope.TellsApart := by
  intro t t' ht ht' htag
  obtain ⟨hmirroring, hrotation, hscale⟩ := Transform.tag_inj htag
  exact ⟨hmirroring, hrotations _ _ ht.rotation ht'.rotation hrotation,
    hscales _ _ ht.scale ht'.scale hscale⟩

variable [Scalar α]

/-- Transforms of the same geometry make the same items. -/
theorem Item.transform_congr {t t' : Transform α} (h : t.SameGeometry t') :
    (Item.transform t : Item α → Item α) = Item.transform t' := by
  obtain ⟨polarity, mirroring, rotation, scale⟩ := t
  obtain ⟨polarity', mirroring', rotation', scale'⟩ := t'
  obtain ⟨rfl, rfl, rfl⟩ := h
  funext item
  cases item <;> rfl

end

/-! ### Sound libraries -/

namespace Library

variable [Legible ℝ] {scope : Scope ℝ} {lib lib' : Library ℝ} {t : Transform ℝ} {base : LayerId}

/-- A library in which the variants of the record are what they should be. -/
structure Sound (scope : Scope ℝ) (lib : Library ℝ) : Prop where
  /-- There are layers of apertures and their variants. -/
  names (id : LayerId) (layer : Layer ℝ) : lib.layers[id]? = some layer →
    (∃ aperture : ApertureId, aperture.IsNumbered ∧ id = .ofAperture aperture) ∨
      ∃ base tag, (base, tag) ∈ lib.variants ∧ id = base.variant tag
  tags (base : LayerId) (tag : String) : (base, tag) ∈ lib.variants →
    ∃ t : Transform ℝ, t.Within scope ∧ tag = t.tag
  /-- A variant in the record has the transformed items of its base, and the variants that it
  pastes are in the record too. -/
  built (base : LayerId) (t : Transform ℝ) : t.Within scope → (base, t.tag) ∈ lib.variants →
    ∃ layer, lib.layers[base]? = some layer ∧
      lib.layers[base.variant t.tag]? =
        some (.ofItems (base.variant t.tag) (layer.items.toList.map (Item.transform t))) ∧
      ∀ source ∈ Item.sources layer.items.toList, (source, t.tag) ∈ lib.variants
  closed (id : LayerId) (layer : Layer ℝ) : lib.layers[id]? = some layer →
    ∀ source ∈ Item.sources layer.items.toList, ∃ pasted, lib.layers[source]? = some pasted

/-- A library with further variants. -/
structure Enriched (scope : Scope ℝ) (start lib : Library ℝ) : Prop where
  sound : lib.Sound scope
  layers : lib.layers.Includes start.layers
  numbered (id : ApertureId) : id.IsNumbered →
    lib.layers[LayerId.ofAperture id]? = start.layers[LayerId.ofAperture id]?
  variants : start.variants ⊆ lib.variants

/-- Without layers there is nothing unsound. -/
theorem sound_empty : (empty : Library ℝ).Sound scope where
  names id layer h := by simp [empty] at h
  tags base tag h := by simp [empty] at h
  built base t _ h := by simp [empty] at h
  closed id layer h := by simp [empty] at h

/-- A sound library is what it was. -/
theorem Sound.enriched (h : lib.Sound scope) : Enriched scope lib lib :=
  ⟨h, fun _ _ => id, fun _ _ => rfl, fun _ => id⟩

/-- A library that was enriched twice is enriched. -/
theorem Enriched.trans {lib'' : Library ℝ} (h : Enriched scope lib lib')
    (h' : Enriched scope lib' lib'') : Enriched scope lib lib'' :=
  ⟨h'.sound, h'.layers.trans h.layers, fun id hid => (h'.numbered id hid).trans (h.numbered id hid),
    fun _ hentry => h'.variants (h.variants hentry)⟩

/-- **The items of a variant** depict what those of its base depict, transformed. -/
theorem Sound.depicts_transform (h : lib.Sound scope) (ht : t.Within scope) {items : List (Item ℝ)}
    {placed : List (PlacedShape ℝ)} (hdepicts : lib.layers.Depicts items placed)
    (hrecorded : ∀ source ∈ Item.sources items, (source, t.tag) ∈ lib.variants) :
    lib.layers.Depicts (items.map (Item.transform t)) (placed.map (.reshape t.applyShape)) := by
  induction hdepicts with
  | nil => exact .nil
  | shape _ ih => exact .shape (ih hrecorded)
  | @paste p layer rest inner placed hlayer _ _ ihinner ih =>
      obtain ⟨hsource, hrest⟩ := List.forall_mem_cons.mp hrecorded
      obtain ⟨layer', hlayer', hvariant, hnested⟩ := h.built p.source t ht hsource
      obtain rfl : layer = layer' := Option.some.inj (hlayer.symm.trans hlayer')
      have hinner := ihinner hnested
      rw [← Layer.items_ofItems (p.source.variant t.tag)
        (layer.items.toList.map (Item.transform t))] at hinner
      rw [List.map_append, PlacedShape.map_pasted_applyShape]
      exact .paste (p := { p with source := _, center := _ }) hvariant hinner (ih hrest)

/-! ### Defining layers -/

/-- Without a layer there are no variants of it. -/
theorem Sound.dropVariants_eq_self (h : lib.Sound scope) {id : LayerId}
    (hunused : lib.layers[id]? = none) : lib.dropVariants id = lib.variants := by
  refine List.filter_eq_self.mpr fun ⟨base, tag⟩ hentry => ?_
  obtain ⟨t, ht, rfl⟩ := h.tags base tag hentry
  obtain ⟨layer, hlayer, -⟩ := h.built base t ht hentry
  refine bne_iff_ne.mpr ?_
  rintro rfl
  rw [hunused] at hlayer
  cases hlayer

/-- A layer under a new name replaces nothing. -/
theorem includes_define {l : Layer ℝ} (hunused : lib.layers[l.id]? = none) :
    (lib.revise (.define l)).layers.Includes lib.layers :=
  LayerTable.includes_insert (by simp [LayerTable.mem_iff_lookup, hunused]) l

/-- A new layer may paste layers that are there. -/
theorem Sound.define (h : lib.Sound scope) {aperture : ApertureId} (hnumbered : aperture.IsNumbered)
    {l : Layer ℝ} (hid : l.id = .ofAperture aperture) (hunused : lib.layers[l.id]? = none)
    (hsources : ∀ source ∈ Item.sources l.items.toList,
      ∃ pasted, lib.layers[source]? = some pasted) : (lib.revise (.define l)).Sound scope := by
  have hincludes := includes_define hunused
  have hvariants : (lib.revise (.define l)).variants = lib.variants :=
    h.dropVariants_eq_self hunused
  have hlookup (id : LayerId) : (lib.revise (.define l)).layers[id]? =
      if l.id = id then some l else lib.layers[id]? := LayerTable.lookup_insert _ _ _ _
  constructor
  case names =>
    intro id layer hlayer
    rw [hlookup] at hlayer
    rw [hvariants]
    split at hlayer
    · rename_i heq
      exact .inl ⟨aperture, hnumbered, heq ▸ hid⟩
    · exact h.names id layer hlayer
  case tags =>
    rw [hvariants]
    exact h.tags
  case built =>
    intro base t ht hentry
    rw [hvariants] at hentry ⊢
    obtain ⟨layer, hlayer, hvariant, hnested⟩ := h.built base t ht hentry
    exact ⟨layer, hincludes _ _ hlayer, hincludes _ _ hvariant, hnested⟩
  case closed =>
    intro id layer hlayer source hsource
    have hpasted : ∃ pasted, lib.layers[source]? = some pasted := by
      rw [hlookup] at hlayer
      split at hlayer
      · obtain rfl := Option.some.inj hlayer
        exact hsources source hsource
      · exact h.closed id layer hlayer source hsource
    obtain ⟨pasted, hpasted⟩ := hpasted
    exact ⟨pasted, hincludes _ _ hpasted⟩

/-- To remove a layer that is not there changes nothing. -/
theorem Sound.remove (h : lib.Sound scope) {id : LayerId} (hunused : lib.layers[id]? = none) :
    (lib.revise (.remove id)).Sound scope ∧
      ∀ other : LayerId, (lib.revise (.remove id)).layers[other]? = lib.layers[other]? := by
  have hlookup (other : LayerId) :
      (lib.revise (.remove id)).layers[other]? = lib.layers[other]? := by
    refine (LayerTable.lookup_erase _ _ _).trans ?_
    split
    · rename_i heq
      rw [← heq, hunused]
    · rfl
  have hvariants : (lib.revise (.remove id)).variants = lib.variants :=
    h.dropVariants_eq_self hunused
  refine ⟨⟨?_, ?_, ?_, ?_⟩, hlookup⟩
  · simp only [hlookup, hvariants]
    exact h.names
  · simp only [hvariants]
    exact h.tags
  · simp only [hlookup, hvariants]
    exact h.built
  · simp only [hlookup]
    exact h.closed

/-! ### Building variants -/

/-- The revision that completes the variant of a layer. -/
noncomputable abbrev completion (base : LayerId) (t : Transform ℝ) (begun : ℕ) (layer : Layer ℝ) :
    Revision ℝ :=
  .build base t begun (layer.items.toList.map (Item.transform t))

/-- A variant that is complete is found under its name, and all others as before. -/
theorem lookup_completion (base : LayerId) (t : Transform ℝ) (begun : ℕ) (layer : Layer ℝ)
    (lib : Library ℝ) (id : LayerId) :
    (lib.revise (completion base t begun layer)).layers[id]? =
      if base.variant t.tag = id then
        some (.ofItems (base.variant t.tag) (layer.items.toList.map (Item.transform t)))
      else lib.layers[id]? :=
  LayerTable.lookup_insert _ _ _ _

/-- Within a scope the name of a variant determines its base and how items are transformed. -/
theorem variant_inj_of_tellsApart (hscope : scope.TellsApart) (ht : t.Within scope)
    {base' : LayerId} {t' : Transform ℝ} (ht' : t'.Within scope)
    (heq : base.variant t.tag = base'.variant t'.tag) :
    base' = base ∧ (Item.transform t' : Item ℝ → Item ℝ) = Item.transform t := by
  obtain ⟨hbase, htag⟩ := LayerId.variant_inj t.bracket_notMem_tag t'.bracket_notMem_tag heq
  exact ⟨hbase.symm, Item.transform_congr (hscope t' t ht' ht htag.symm)⟩

/-- A layer that already has the name of a variant is the same variant. -/
theorem Sound.includes_completion (h : lib.Sound scope) (hscope : scope.TellsApart)
    (ht : t.Within scope) {layer : Layer ℝ} (hlayer : lib.layers[base]? = some layer) (begun : ℕ) :
    (lib.revise (completion base t begun layer)).layers.Includes lib.layers := by
  intro id old hold
  rw [lookup_completion]
  split
  · rename_i heq
    rcases h.names id old hold with ⟨aperture, hnumbered, rfl⟩ | ⟨base', tag', hentry, rfl⟩
    · exact absurd heq.symm (hnumbered.ne_variant _ _)
    · obtain ⟨t', ht', rfl⟩ := h.tags base' tag' hentry
      obtain ⟨rfl, htransform⟩ := variant_inj_of_tellsApart hscope ht ht' heq
      obtain ⟨layer', hlayer', hvariant, -⟩ := h.built base' t' ht' hentry
      obtain rfl : layer = layer' := Option.some.inj (hlayer.symm.trans hlayer')
      rw [← hold, hvariant, heq, htransform]
  · exact hold

/-- When a variant is complete, the library has one more variant, or had it before. -/
theorem Sound.complete (h : lib.Sound scope) (hscope : scope.TellsApart) (ht : t.Within scope)
    {layer : Layer ℝ} (hlayer : lib.layers[base]? = some layer)
    (hrecorded : ∀ source ∈ Item.sources layer.items.toList, (source, t.tag) ∈ lib.variants)
    (begun : ℕ) : (lib.revise (completion base t begun layer)).Sound scope := by
  have hincludes := h.includes_completion hscope ht hlayer begun
  constructor
  case names =>
    intro id old hold
    rw [lookup_completion] at hold
    split at hold
    · rename_i heq
      exact .inr ⟨base, t.tag, List.mem_cons_self, heq.symm⟩
    · refine (h.names id old hold).imp_right ?_
      rintro ⟨base', tag', hentry, rfl⟩
      exact ⟨base', tag', List.mem_cons_of_mem _ hentry, rfl⟩
  case tags =>
    intro base' tag' hentry
    rcases List.mem_cons.mp hentry with heq | hentry
    · exact ⟨t, ht, (Prod.mk.inj heq).2⟩
    · exact h.tags base' tag' hentry
  case built =>
    intro base' t' ht' hentry
    rcases List.mem_cons.mp hentry with heq | hentry
    · obtain ⟨rfl, htag⟩ := Prod.mk.inj heq
      have hname : base'.variant t.tag = base'.variant t'.tag := by rw [htag]
      obtain ⟨-, htransform⟩ := variant_inj_of_tellsApart hscope ht ht' hname
      refine ⟨layer, hincludes _ _ hlayer, ?_, fun source hsource => ?_⟩
      · rw [lookup_completion, if_pos hname, hname, htransform]
      · rw [htag]
        exact List.mem_cons_of_mem _ (hrecorded source hsource)
    · obtain ⟨layer', hlayer', hvariant, hnested⟩ := h.built base' t' ht' hentry
      exact ⟨layer', hincludes _ _ hlayer', hincludes _ _ hvariant,
        fun source hsource => List.mem_cons_of_mem _ (hnested source hsource)⟩
  case closed =>
    intro id old hold source hsource
    rw [lookup_completion] at hold
    split at hold
    · obtain rfl := Option.some.inj hold
      rw [Layer.items_ofItems, Item.sources_map_transform] at hsource
      obtain ⟨origin, horigin, rfl⟩ := List.mem_map.mp hsource
      obtain ⟨_, -, hvariant, -⟩ := h.built origin t ht (hrecorded origin horigin)
      exact ⟨_, hincludes _ _ hvariant⟩
    · obtain ⟨pasted, hpasted⟩ := h.closed id old hold source hsource
      exact ⟨pasted, hincludes _ _ hpasted⟩

/-- A library is enriched by a variant whose sources are recorded. -/
theorem Sound.enriched_completion (h : lib.Sound scope) (hscope : scope.TellsApart)
    (ht : t.Within scope) {layer : Layer ℝ} (hlayer : lib.layers[base]? = some layer)
    (hrecorded : ∀ source ∈ Item.sources layer.items.toList, (source, t.tag) ∈ lib.variants)
    (begun : ℕ) : Enriched scope lib (lib.revise (completion base t begun layer)) where
  sound := h.complete hscope ht hlayer hrecorded begun
  layers := h.includes_completion hscope ht hlayer begun
  numbered id hid := by rw [lookup_completion, if_neg (hid.ne_variant _ _).symm]
  variants _ := List.mem_cons_of_mem _

/-- The library after the first items of a layer have been prepared for its variant. -/
structure Prepared (scope : Scope ℝ) (t : Transform ℝ) (start : Library ℝ) (done : List (Item ℝ))
    (lib : Library ℝ) : Prop where
  enriched : Enriched scope start lib
  recorded : ∀ source ∈ Item.sources done, (source, t.tag) ∈ lib.variants

/-- Before the first item nothing need be recorded. -/
theorem Sound.prepared (h : lib.Sound scope) (t : Transform ℝ) : Prepared scope t lib [] lib :=
  ⟨h.enriched, by simp [Item.sources]⟩

/-- One more item. What is recorded stays recorded. -/
theorem ensures_buildItem_prepared (nested : LayerId → Action (Library ℝ) LayerId)
    {start : Library ℝ} {done : List (Item ℝ)} (item : Item ℝ)
    (hnested : ∀ source ∈ Item.sources [item], ∀ lib, Enriched scope start lib →
      (nested source).Ensures (· = lib)
        (fun id lib' => id = source.variant t.tag ∧ (source, t.tag) ∈ lib'.variants ∧
          Enriched scope lib lib') fun e _ => e.isFatal) :
    (buildItem t nested item).Ensures (Prepared scope t start done)
      (fun built lib => built = item.transform t ∧ Prepared scope t start (done ++ [item]) lib)
      fun e _ => e.isFatal := by
  refine Action.Ensures.of_state fun lib hlib => ?_
  cases item with
  | shape s =>
      rintro lib rfl
      refine ⟨rfl, hlib.enriched, fun source hsource => hlib.recorded source ?_⟩
      simpa [Item.sources, Item.source?] using hsource
  | paste p =>
      refine Action.Ensures.bind (hnested p.source List.mem_cons_self lib hlib.enriched)
        fun source => ?_
      rintro lib' ⟨rfl, hentry, henriched⟩
      refine ⟨rfl, hlib.enriched.trans henriched, fun source hsource => ?_⟩
      rw [Item.sources, List.filterMap_append, List.mem_append] at hsource
      rcases hsource with hsource | hsource
      · exact henriched.variants (hlib.recorded source hsource)
      · obtain rfl := List.mem_singleton.mp hsource
        exact hentry

/-- **Building a variant.** The variant is there afterwards, unless a layer depends on itself. The
induction is on how deep variants are nested. -/
theorem ensures_build_enriched (hscope : scope.TellsApart) (ht : t.Within scope) (depth : ℕ)
    (path : List LayerId) (hsound : lib.Sound scope) {layer : Layer ℝ}
    (hlayer : lib.layers[base]? = some layer) :
    (build t depth path base).Ensures (· = lib)
      (fun id lib' => id = base.variant t.tag ∧ (base, t.tag) ∈ lib'.variants ∧
        Enriched scope lib lib') fun e _ => e.isFatal := by
  induction depth generalizing path base lib layer with
  | zero => exact fun _ _ => rfl
  | succ depth ih =>
      rw [build]
      refine Action.Ensures.get_bind ?_
      rintro lib rfl
      split
      · rename_i hentry
        rintro lib rfl
        exact ⟨rfl, List.contains_iff_mem.mp hentry, hsound.enriched⟩
      split
      · exact fun _ _ => rfl
      rw [hlayer]
      have hitems := Action.Ensures.mapM_done (P := Prepared scope t lib) [] layer.items.toList
        fun first item rest hsplit =>
          ensures_buildItem_prepared (build t depth (base :: path)) item
            fun source hsource lib' hlib' => by
              have hmem : source ∈ Item.sources layer.items.toList := by
                rw [hsplit, Item.sources, List.filterMap_append, List.mem_append]
                refine .inr ?_
                rw [← List.singleton_append, List.filterMap_append, List.mem_append]
                exact .inl hsource
              obtain ⟨pasted, hpasted⟩ := hsound.closed base layer hlayer source hmem
              exact ih (base :: path) hlib'.sound (hlib'.layers _ _ hpasted)
      refine Action.Ensures.bind (M := fun items lib' =>
        items = layer.items.toList.map (Item.transform t) ∧
          Prepared scope t lib layer.items.toList lib')
        (Action.Ensures.strengthen hitems ?_) fun items => Action.Ensures.of_and ?_
      · rintro lib rfl
        exact hsound.prepared t
      · rintro rfl lib' hlib'
        have hdone := hlib'.enriched.sound.enriched_completion hscope ht
          (hlib'.enriched.layers _ _ hlayer) hlib'.recorded lib.history.length
        exact ⟨rfl, List.mem_cons_self, hlib'.enriched.trans hdone⟩

/-- **Asking for a variant** of a layer. What is given depicts what the layer depicts, reshaped by
the transform. -/
theorem ensures_variant (hscope : scope.TellsApart) (ht : t.Within scope) (hsound : lib.Sound scope)
    {layer : Layer ℝ} (hlayer : lib.layers[base]? = some layer) :
    (variant t base).Ensures (· = lib)
      (fun source lib' => Enriched scope lib lib' ∧ ∃ pasted, lib'.layers[source]? = some pasted ∧
        ∀ placed, lib.layers.Depicts layer.items.toList placed →
          lib'.layers.Depicts pasted.items.toList (placed.map (.reshape t.reshape)))
      fun e _ => e.isFatal := by
  rw [variant]
  refine Action.Ensures.get_bind ?_
  rintro lib rfl
  have hcontains : lib.layers.contains base := by
    rw [Std.TreeMap.contains_eq_isSome_getElem?, hlayer]
    rfl
  rw [hcontains]
  by_cases hidentity : t.isIdentity
  · rintro lib rfl
    rw [hidentity]
    have hsame : t.reshape = id := funext fun s => if_pos hidentity
    refine ⟨hsound.enriched, layer, hlayer, fun placed hplaced => ?_⟩
    have hplain : placed.map (PlacedShape.reshape t.reshape) = placed := by
      rw [hsame]
      exact List.map_id placed
    rw [hplain]
    exact hplaced
  · rw [Bool.not_eq_true] at hidentity
    rw [hidentity]
    have hsame : t.reshape = t.applyShape := funext fun s => by simp [Transform.reshape, hidentity]
    refine (ensures_build_enriched hscope ht _ [] hsound hlayer).weaken ?_ fun _ _ => id
    rintro _ lib' ⟨rfl, hentry, henriched⟩
    obtain ⟨layer', hlayer', hvariant, hnested⟩ := henriched.sound.built base t ht hentry
    obtain rfl := Option.some.inj ((henriched.layers _ _ hlayer).symm.trans hlayer')
    refine ⟨henriched, _, hvariant, fun placed hplaced => ?_⟩
    rw [hsame, Layer.items_ofItems]
    exact henriched.sound.depicts_transform ht (hplaced.extend henriched.layers) hnested

end Library

end Photoplot
