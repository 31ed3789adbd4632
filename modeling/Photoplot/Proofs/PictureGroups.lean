import Mathlib.Data.Real.Basic
import Photoplot.Proofs.PictureLayers
import Photoplot.Scalar.Real

/-!
# Pictures are Read as They are Made

A picture is one flat list, and its layers are found again by looking for their markers. Nothing
is lost on the way: the list is a row of groups, one for each layer that the main layer reaches,
and what is read off for the id of a group is that group.

## Marker convention

The items of a group are kept as items, not as commands, so that no marker can stand among them
(`not_starts_of_ofItem`, `not_ends_of_ofItem`).

## Main definitions

* `Picture.Group`: what stands in a picture for one layer.
* `Picture.Ordered`: groups that can be drawn one after the other.
* `Picture.Reads`: a group is what is read off for its id.

## Main results

* `Picture.eq_flatMap_of_groups`: a picture is a row of groups, by induction on the order.
* `finish_reads`: what is made by the composer can be read.
-/

namespace Photoplot

variable {α : Type}

namespace Picture

/-! ### Rows of groups -/

/-- What stands in a picture for one layer. -/
structure Group (α : Type) where
  id : LayerId
  bounds : Option (Bounds α)
  items : List (Item α)

/-- The commands of a group: its items between two markers. -/
def Group.commands (g : Group α) : List (DrawCommand α) :=
  .startLayer g.id g.bounds :: g.items.map .ofItem ++ [.endLayer]

/-- Groups that can be drawn one after the other. There are no two groups for one layer, the main
layer comes last, and what a group pastes is the layer of a group before it. -/
structure Ordered (groups : List (Group α)) : Prop where
  nodup : (groups.map Group.id).Nodup
  main_last : (groups.map Group.id).getLast? = some .main
  sources_before {before after : List (Group α)} {g : Group α} {source : LayerId} :
    groups = before ++ g :: after → source ∈ Item.sources g.items → source ∈ before.map Group.id

/-- A group is what a picture gives for its id: all its commands, its shapes and its pastes, each
in their order, and its bounds. -/
structure Reads (p : Picture α) (g : Group α) : Prop where
  layer?_eq : p.layer? g.id = some (g.items.map .ofItem)
  shapes_eq : (p.shapes g.id).map .shape = g.items.filter Item.isShape
  pastes_eq : (p.pastes g.id).map .paste = g.items.filter (!Item.isShape ·)
  layerBounds?_eq : p.layerBounds? g.id = g.bounds

/-- A group stands for a layer of a table. -/
def Group.Shows (g : Group α) (layers : LayerTable α) : Prop :=
  ∃ layer, layers[g.id]? = some layer ∧ g.items = layer.items.toList

variable [Scalar α] {layers : LayerTable α} {ids : List LayerId}
  {boxes : Std.TreeMap LayerId (Bounds α)} {picture : Picture α}

/-- The layers of an order become a row of groups. -/
theorem eq_flatMap_of_groups (h : groups layers boxes ids = .ok picture) :
    ∃ row : List (Group α), picture = row.flatMap Group.commands ∧ row.map Group.id = ids ∧
      ∀ g ∈ row, g.Shows layers := by
  induction ids generalizing boxes picture with
  | nil =>
      obtain rfl := Except.ok.inj h
      exact ⟨[], rfl, rfl, by simp⟩
  | cons id rest ih =>
      obtain ⟨layer, others, hlayer, hothers, rfl⟩ := exists_of_groups_cons h
      obtain ⟨row, rfl, hids, hshows⟩ := ih hothers
      let box := itemBounds boxes layer.items.toList
      refine ⟨⟨id, if box.isEmpty then none else some box, layer.items.toList⟩ :: row, rfl, ?_, ?_⟩
      · rw [List.map_cons, hids]
      · exact List.forall_mem_cons.mpr ⟨⟨layer, hlayer, rfl⟩, hshows⟩

omit [Scalar α] in
/-- A topological order of layers puts their groups in order. -/
theorem ordered_of_isOrder {row : List (Group α)} (horder : layers.IsOrder (row.map Group.id))
    (hshows : ∀ g ∈ row, g.Shows layers) : Ordered row where
  nodup := horder.nodup
  main_last := horder.main_last
  sources_before {before after g source} hrow hsource := by
    obtain ⟨layer, hlayer, hitems⟩ := hshows g (by simp [hrow])
    have hsplit : row.map Group.id = before.map Group.id ++ g.id :: after.map Group.id := by
      rw [hrow, List.map_append, List.map_cons]
    exact horder.sources_before hsplit ⟨layer, hlayer, hitems ▸ hsource⟩

/-! ### Reading a group -/

omit [Scalar α] in
/-- Bounds are looked up in the first group, and then in the others. -/
theorem layerBounds?_append (g : Group α) (rest : Picture α) (id : LayerId) :
    layerBounds? (g.commands ++ rest) id =
      (if g.id = id then g.bounds else none).or (layerBounds? rest id) := by
  have hitems : ∀ items : List (Item α),
      layerBounds? (items.map DrawCommand.ofItem ++ .endLayer :: rest) id =
        layerBounds? rest id := by
    intro items
    induction items with
    | nil => rfl
    | cons item items ih => cases item <;> exact ih
  rw [← hitems g.items, Group.commands, layerBounds?]
  cases hfirst : (if g.id = id then g.bounds else none) <;> simp [hfirst, layerBounds?]

omit [Scalar α] in
/-- A layer that has no group has no box. -/
theorem layerBounds?_eq_none {row : List (Group α)} {id : LayerId}
    (hid : id ∉ row.map Group.id) : layerBounds? (row.flatMap Group.commands) id = none := by
  induction row with
  | nil => rfl
  | cons first rest ih =>
      rw [List.map_cons, List.mem_cons, not_or] at hid
      rw [List.flatMap_cons, layerBounds?_append, if_neg (Ne.symm hid.1), ih hid.2, Option.or_none]

omit [Scalar α] in
/-- The bounds of a layer are those of its group, which is the only one with its id. -/
theorem layerBounds?_flatMap {row : List (Group α)} (hnodup : (row.map Group.id).Nodup)
    {g : Group α} (hg : g ∈ row) :
    layerBounds? (row.flatMap Group.commands) g.id = g.bounds := by
  induction row with
  | nil => simp at hg
  | cons first rest ih =>
      obtain ⟨hfirst, hrest⟩ := List.nodup_cons.mp hnodup
      rw [List.flatMap_cons, layerBounds?_append]
      rcases List.mem_cons.mp hg with rfl | hg
      · rw [if_pos rfl, layerBounds?_eq_none hfirst, Option.or_none]
      · have hne : first.id ≠ g.id := fun heq => hfirst (heq ▸ List.mem_map_of_mem hg)
        rw [if_neg hne, ih hrest hg, Option.none_or]

omit [Scalar α] in
/-- The shapes of a layer are those among its items. -/
theorem map_shapes {p : Picture α} {id : LayerId} {items : List (Item α)}
    (h : p.layer? id = some (items.map .ofItem)) :
    (p.shapes id).map Item.shape = items.filter Item.isShape := by
  rw [shapes, h, Option.getD_some]
  clear h
  induction items with
  | nil => rfl
  | cons item rest ih =>
      cases item with
      | shape s => exact congrArg (Item.shape s :: ·) ih
      | paste q => exact ih

omit [Scalar α] in
/-- The pastes of a layer are those among its items. -/
theorem map_pastes {p : Picture α} {id : LayerId} {items : List (Item α)}
    (h : p.layer? id = some (items.map .ofItem)) :
    (p.pastes id).map Item.paste = items.filter (!Item.isShape ·) := by
  rw [pastes, h, Option.getD_some]
  clear h
  induction items with
  | nil => rfl
  | cons item rest ih =>
      cases item with
      | shape s => exact ih
      | paste q => exact congrArg (Item.paste q :: ·) ih

/-- What is read off for the id of a group is the group. -/
theorem reads_of_ofLayers {row : List (Group α)} (h : ofLayers layers = .ok picture)
    (hpicture : picture = row.flatMap Group.commands) (hnodup : (row.map Group.id).Nodup)
    {g : Group α} (hg : g ∈ row) (hreach : layers.Reaches .main g.id) (hshows : g.Shows layers) :
    picture.Reads g := by
  obtain ⟨layer, hlayer, hitems⟩ := hshows
  have hcommands : picture.layer? g.id = some (g.items.map .ofItem) :=
    (layer?_eq_some_iff h).mpr ⟨hreach, layer, hlayer, by rw [hitems]⟩
  exact
    { layer?_eq := hcommands
      shapes_eq := map_shapes hcommands
      pastes_eq := map_pastes hcommands
      layerBounds?_eq := hpicture ▸ layerBounds?_flatMap hnodup hg }

end Picture

/-- **A picture gives the layers back.** Whenever the composer makes a picture, it is a row of
groups in order, the groups are those of the layers that the main layer reaches, and every one of
them has the items of its layer and is read off as it is. For another layer there is nothing. -/
theorem finish_reads [Scalar α] {c : Composer α} {picture : Picture α}
    (h : (Composer.finish.run c).result = .ok picture) :
    ∃ row : List (Picture.Group α),
      picture = row.flatMap Picture.Group.commands ∧ Picture.Ordered row ∧
      (∀ g ∈ row, g.Shows c.allLayers ∧ picture.Reads g) ∧
      ∀ id, (id ∈ row.map Picture.Group.id ↔ c.allLayers.Reaches .main id) ∧
        (¬ c.allLayers.Reaches .main id → picture.layer? id = none) := by
  have hlayers : Picture.ofLayers c.allLayers = .ok picture := (result_finish c).symm.trans h
  obtain ⟨found, hisOrder, hgroups⟩ := Picture.exists_isOrder_of_ofLayers hlayers
  obtain ⟨row, hpicture, rfl, hshows⟩ := Picture.eq_flatMap_of_groups hgroups
  refine ⟨row, hpicture, Picture.ordered_of_isOrder hisOrder hshows, fun g hg => ?_, fun id => ?_⟩
  · have hreach := (hisOrder.mem_iff_reaches g.id).mp (List.mem_map_of_mem hg)
    exact ⟨hshows g hg,
      Picture.reads_of_ofLayers hlayers hpicture hisOrder.nodup hg hreach (hshows g hg)⟩
  · refine ⟨hisOrder.mem_iff_reaches id, fun hid => ?_⟩
    refine Option.eq_none_iff_forall_ne_some.mpr fun commands hcommands => ?_
    exact hid ((Picture.layer?_eq_some_iff hlayers).mp hcommands).1

/-! ### A picture of two layers -/

/-- A circle is pasted twice into the main layer, with a line between the pastes. Another layer of
the library is not pasted, and a block is never ended. -/
noncomputable def pastedTwice : Composer ℝ where
  layers := ((∅ : LayerTable ℝ).insert ⟨"D10"⟩ (.ofItems ⟨"D10"⟩
    [.shape ⟨.circle ⟨0, 0⟩ 2, .dark⟩])).insert ⟨"D11"⟩ (.ofItems ⟨"D11"⟩
    [.shape ⟨.circle ⟨0, 0⟩ 8, .dark⟩])
  variants := []
  history := []
  top := .ofItems ⟨"D12"⟩ [.paste ⟨⟨"D10"⟩, ⟨0, 0⟩, .dark⟩]
  below := [.ofItems .main
    [.paste ⟨⟨"D10"⟩, ⟨3, 0⟩, .dark⟩, .shape ⟨.line ⟨3, 0⟩ ⟨6, 0⟩ 1, .dark⟩,
      .paste ⟨⟨"D10"⟩, ⟨6, 0⟩, .clear⟩]]
  contour := none
  stepRepeats := 0

/-- The order of the layers of the example. -/
theorem order_pastedTwice :
    pastedTwice.allLayers.order = .ok [⟨"D10"⟩, .main] := by
  have hchain : pastedTwice.allLayers.IsChain [.main, ⟨"D10"⟩] :=
    ⟨by decide +kernel, by decide +kernel, trivial⟩
  exact LayerTable.order_of_isChain hchain (by decide)

/-- The layers make a picture, which is read as it was made. -/
theorem finish_reads_pastedTwice :
    ∃ picture, (Composer.finish.run pastedTwice).result = .ok picture ∧
      ∃ row : List (Picture.Group ℝ),
        picture = row.flatMap Picture.Group.commands ∧ Picture.Ordered row ∧
        (∀ g ∈ row, g.Shows pastedTwice.allLayers ∧ picture.Reads g) ∧
        ∀ id, (id ∈ row.map Picture.Group.id ↔ pastedTwice.allLayers.Reaches .main id) ∧
          (¬ pastedTwice.allLayers.Reaches .main id → picture.layer? id = none) := by
  obtain ⟨picture, hpicture⟩ := Picture.exists_ofLayers order_pastedTwice
  have hfinish : (Composer.finish.run pastedTwice).result = .ok picture :=
    (result_finish pastedTwice).trans hpicture
  exact ⟨picture, hfinish, finish_reads hfinish⟩

end Photoplot
