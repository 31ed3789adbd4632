import Photoplot.Proofs.Stencils

/-!
# Layers in Other Colors

The polarities of a layer can be changed without a change of what it looks like otherwise: its
bounding box, the layers that it pastes and its place in the order stay the same. Recolored layers
make a recolored picture.

The items of variants have the polarities of the items of their bases. So a recolored library that
builds a variant builds the recolored variant, and the two libraries stay alike.

## Main definitions

* `Layer.recolor`, `Picture.recolor`: layers and pictures with other colors. The shapes of stencils
  keep theirs.
* `LayerTable.Recolors`, `Library.Recolors`: the second table or library has other colors.

## Main results

* `LayerTable.order_congr`: the order of layers depends on nothing but what they paste, by the
  recursion of the search.
* `Library.Recolors.revise`: a revision of both libraries.
* `Library.refines_build`: variants are built alike, by induction on how deep they are nested.
* `Picture.ofLayers_recolor`: recolored layers make a recolored picture.
-/

namespace Photoplot

variable {α : Type} {ρ : Polarity → Polarity} {stencil : Bool}

/-! ### Layers -/

/-- A paste with another polarity. -/
def Paste.recolor (ρ : Polarity → Polarity) (p : Paste α) : Paste α :=
  { p with polarity := ρ p.polarity }

/-- A shape with another polarity. -/
def Shape.recolor (ρ : Polarity → Polarity) (s : Shape α) : Shape α :=
  { s with polarity := ρ s.polarity }

/-- An item with another polarity. The shapes of stencils keep theirs. -/
def Item.recolor (ρ : Polarity → Polarity) (stencil : Bool) : Item α → Item α
  | .shape s => .shape (if stencil then s else s.recolor ρ)
  | .paste p => .paste (p.recolor ρ)

namespace Item

/-- A recolored item pastes the same layer. -/
@[simp] theorem source?_recolor (item : Item α) :
    (item.recolor ρ stencil).source? = item.source? := by
  cases item <;> rfl

/-- Recolored items paste the same layers. -/
theorem sources_map_recolor (items : List (Item α)) :
    sources (items.map (recolor ρ stencil)) = sources items := by
  rw [sources, sources, List.filterMap_map]
  exact congrArg (List.filterMap · items) (funext source?_recolor)

/-- Items may be moved before they are recolored or afterwards. -/
theorem translate_recolor [Scalar α] (offset : Point α) (item : Item α) :
    (item.recolor ρ stencil).translate offset = (item.translate offset).recolor ρ stencil := by
  cases item with
  | shape s => cases stencil <;> rfl
  | paste p => rfl

end Item

namespace Layer

/-- A layer with other colors. -/
def recolor (ρ : Polarity → Polarity) (stencil : Bool) (l : Layer α) : Layer α where
  id := l.id
  items := l.items.map (Item.recolor ρ stencil)
  dependsOn := l.dependsOn
  mem_dependsOn source := by
    rw [l.mem_dependsOn, Array.toList_map, Item.sources_map_recolor]

/-- A recolored layer has the same id. -/
@[simp] theorem id_recolor (l : Layer α) : (l.recolor ρ stencil).id = l.id := rfl

/-- The items of a recolored layer are recolored. -/
@[simp] theorem items_recolor (l : Layer α) :
    (l.recolor ρ stencil).items.toList = l.items.toList.map (.recolor ρ stencil) :=
  Array.toList_map

/-- An item may be recolored before it is added or afterwards. -/
theorem push_recolor (l : Layer α) (item : Item α) :
    (l.push item).recolor ρ stencil = (l.recolor ρ stencil).push (item.recolor ρ stencil) := by
  simp only [recolor, push, Array.map_push, Item.source?_recolor]

/-- Items may be recolored before they are added or afterwards. -/
theorem append_recolor (l : Layer α) (items : List (Item α)) :
    (l.append items).recolor ρ stencil =
      (l.recolor ρ stencil).append (items.map (.recolor ρ stencil)) := by
  induction items generalizing l with
  | nil => rfl
  | cons item rest ih =>
      rw [List.map_cons]
      exact (ih (l.push item)).trans (by rw [push_recolor]; rfl)

/-- A layer without items has nothing to recolor. -/
theorem empty_recolor (id : LayerId) : (empty id : Layer α).recolor ρ stencil = empty id := by
  simp [recolor, empty]

/-- Items may be recolored before they make a layer or afterwards. -/
theorem ofItems_recolor (id : LayerId) (items : List (Item α)) :
    (ofItems id items).recolor ρ stencil = ofItems id (items.map (.recolor ρ stencil)) := by
  rw [ofItems, append_recolor, empty_recolor, ofItems]

/-- The shapes of an aperture have no other colors. -/
theorem ofItems_shapes_recolor (id : LayerId) (shapes : List (Shape α)) :
    (ofItems id (shapes.map .shape)).recolor ρ true = ofItems id (shapes.map .shape) := by
  rw [ofItems_recolor, List.map_map]
  rfl

/-- The items of another layer may be recolored before they are added or afterwards. -/
theorem appendTranslated_recolor [Scalar α] (l other : Layer α) (offset : Point α) :
    (l.appendTranslated other offset).recolor ρ stencil =
      (l.recolor ρ stencil).appendTranslated (other.recolor ρ stencil) offset := by
  have hitems : (other.items.toList.map (Item.translate offset)).map (Item.recolor ρ stencil) =
      (other.recolor ρ stencil).items.toList.map (Item.translate offset) := by
    rw [items_recolor, List.map_map, List.map_map]
    exact List.map_congr_left fun item _ => (item.translate_recolor offset).symm
  rw [appendTranslated, append_recolor, hitems, appendTranslated]

end Layer

/-! ### Transforms -/

namespace Transform

/-- A tag says nothing about polarity. -/
theorem tag_recolor [Legible α] (t : Transform α) : (t.recolor ρ).tag = t.tag := rfl

end Transform

/-! ### Orders and bounds of layers -/

namespace LayerTable

variable {layers layers' : LayerTable α}

mutual

/-- A visit looks at the dependencies of layers only. -/
theorem visit_congr
    (h : ∀ id : LayerId, layers'[id]?.map Layer.dependsOn = layers[id]?.map Layer.dependsOn)
    (path found : List LayerId) (id : LayerId) :
    layers'.visit path found id = layers.visit path found id := by
  rw [visit, visit]
  split
  · rfl
  split
  · rfl
  rename_i hpath
  have hid := h id
  split
  · rename_i hlayer'
    rw [hlayer', Option.map_none, eq_comm, Option.map_eq_none_iff] at hid
    split
    · rfl
    · simp_all
  · rename_i layer' hlayer'
    rw [hlayer', Option.map_some, eq_comm, Option.map_eq_some_iff] at hid
    obtain ⟨layer, hlayer, hdepends⟩ := hid
    split
    · simp_all
    · rename_i layer'' hlayer''
      obtain rfl : layer = layer'' := Option.some.inj (hlayer.symm.trans hlayer'')
      rw [hdepends, visitAll_congr h (id :: path) found layer'.dependsOn.toList]
termination_by (layers.outside path, 0)
decreasing_by
  exact Prod.Lex.left _ _ (outside_cons_lt ‹_› ‹_›)

/-- Visits one after the other look at the dependencies of layers only. -/
theorem visitAll_congr
    (h : ∀ id : LayerId, layers'[id]?.map Layer.dependsOn = layers[id]?.map Layer.dependsOn)
    (path found ids : List LayerId) :
    layers'.visitAll path found ids = layers.visitAll path found ids := by
  match ids with
  | [] => rw [visitAll, visitAll]
  | id :: rest =>
      rw [visitAll, visitAll, visit_congr h path found id]
      exact congrArg _ (funext fun found' => visitAll_congr h path found' rest)
termination_by (layers.outside path, ids.length + 1)
decreasing_by
  · exact Prod.Lex.right _ (by simp)
  · exact Prod.Lex.right _ (by simp)

end

/-- The order of layers depends on nothing but what they depend on. -/
theorem order_congr
    (h : ∀ id : LayerId, layers'[id]?.map Layer.dependsOn = layers[id]?.map Layer.dependsOn) :
    layers'.order = layers.order :=
  visit_congr h [] [] .main

/-- The second table has other colors. What is a stencil is said by name. -/
def Recolors (ρ : Polarity → Polarity) (isStencil : LayerId → Bool)
    (layers layers' : LayerTable α) : Prop :=
  ∀ id : LayerId, layers'[id]? = layers[id]?.map (Layer.recolor ρ (isStencil id))

variable {isStencil : LayerId → Bool}

/-- Recolored layers come in the same order. -/
theorem Recolors.order_eq (h : Recolors ρ isStencil layers layers') :
    layers'.order = layers.order :=
  order_congr fun id => by rw [h id, Option.map_map]; rfl

/-- A layer takes the place of another one. -/
theorem Recolors.insert {isStencil' : LayerId → Bool} (h : Recolors ρ isStencil layers layers')
    {id : LayerId} {l l' : Layer α} (hl : l' = l.recolor ρ (isStencil' id))
    (hothers : ∀ other, id ≠ other → isStencil' other = isStencil other) :
    Recolors ρ isStencil' (layers.insert id l) (layers'.insert id l') := by
  intro other
  rw [lookup_insert, lookup_insert]
  split
  · rename_i heq
    rw [← heq, hl, Option.map_some]
  · rename_i hne
    rw [h other, hothers other hne]

/-- A layer is removed. -/
theorem Recolors.erase {isStencil' : LayerId → Bool} (h : Recolors ρ isStencil layers layers')
    {id : LayerId} (hothers : ∀ other, id ≠ other → isStencil' other = isStencil other) :
    Recolors ρ isStencil' (layers.erase id) (layers'.erase id) := by
  intro other
  rw [lookup_erase, lookup_erase]
  split
  · rfl
  · rename_i hne
    rw [h other, hothers other hne]

end LayerTable

/-! ### Libraries -/

namespace Library

/-- Recolored layers leave the same room for nested variants. -/
theorem nestingBound_eq {isStencil : LayerId → Bool} {layers layers' : LayerTable α}
    (h : LayerTable.Recolors ρ isStencil layers layers') :
    nestingBound layers' = nestingBound layers := by
  have hequiv : layers'.Equiv (layers.map fun id l => l.recolor ρ (isStencil id)) :=
    .of_forall_constGet?_eq fun id => by
      show layers'[id]? = (layers.map fun id l => l.recolor ρ (isStencil id))[id]?
      rw [h id, Std.TreeMap.getElem?_map]
  have hsize : layers'.size = layers.size := hequiv.size_eq.trans Std.TreeMap.size_map
  have hlongest : longestName layers' = longestName layers := by
    rw [longestName, longestName, hequiv.foldl_eq, Std.TreeMap.foldl_eq_foldl_toList,
      Std.TreeMap.foldl_eq_foldl_toList, Std.TreeMap.toList_map, List.foldl_map]
    simp only [Layer.items_recolor, Item.sources_map_recolor]
  rw [nestingBound, nestingBound, hsize, hlongest]

variable [Legible α] {made made' : List Nat} {lib lib' : Library α}

/-- The second library has other colors, except in its stencils. -/
structure Recolors (ρ : Polarity → Polarity) (made : List Nat) (lib lib' : Library α) : Prop where
  layers : LayerTable.Recolors ρ (isStencil made lib.history) lib.layers lib'.layers
  variants : lib'.variants = lib.variants
  history : lib'.history.map Revision.outline = lib.history.map Revision.outline
  past : ∀ number ∈ made, number < lib.history.length

/-- Without layers there are no colors to differ in. -/
theorem recolors_empty : Recolors ρ [] (empty : Library α) empty where
  layers _ := rfl
  variants := rfl
  history := rfl
  past := by simp

/-- Recolored libraries have been revised as often. -/
theorem Recolors.length_history (h : Recolors ρ made lib lib') :
    lib'.history.length = lib.history.length := by
  simpa using congrArg List.length h.history

/-- A revision of one name, which the ledger may note. -/
theorem Recolors.revise (h : Recolors ρ made lib lib') {r r' : Revision α}
    (houtline : r'.outline = r.outline) (hmade : made' = made ∨ made' = lib.history.length :: made)
    (hlayers : (∀ other, r.target ≠ other →
        isStencil made' (r :: lib.history) other = isStencil made lib.history other) →
      LayerTable.Recolors ρ (isStencil made' (r :: lib.history)) (lib.revise r).layers
        (lib'.revise r').layers) :
    Recolors ρ made' (lib.revise r) (lib'.revise r') where
  layers := by
    rw [history_revise]
    refine hlayers fun other hother => ?_
    rw [isStencil_of_ne hother]
    rcases hmade with rfl | rfl
    · rfl
    · exact isStencil_note lib.history (Nat.le_refl _) other
  variants := by
    cases r <;> cases r' <;> simp only [Revision.outline, reduceCtorEq] at houtline
    case define l l' =>
      have hid : l'.id = l.id := (congrArg Revision.target houtline :)
      simp only [Library.revise, dropVariants, h.variants, hid]
    case remove id id' =>
      obtain rfl := Revision.remove.inj houtline
      simp only [Library.revise, dropVariants, h.variants]
    case build base t begun items base' t' begun' items' =>
      obtain ⟨rfl, htransform, -, -⟩ := Revision.build.inj houtline
      have htag : t'.tag = t.tag := (congrArg Transform.tag htransform :)
      simp only [Library.revise, h.variants, htag]
  history := by
    rw [history_revise, history_revise, List.map_cons, List.map_cons, houtline, h.history]
  past number hnumber := by
    rw [history_revise, List.length_cons]
    rcases hmade with rfl | rfl
    · exact Nat.lt_succ_of_lt (h.past number hnumber)
    · rcases List.mem_cons.mp hnumber with rfl | hnumber
      · exact Nat.lt_succ_self _
      · exact Nat.lt_succ_of_lt (h.past number hnumber)

/-- A layer of strokes and regions is defined. -/
theorem Recolors.define (h : Recolors ρ made lib lib') (l : Layer α) :
    Recolors ρ made (lib.revise (.define l)) (lib'.revise (.define (l.recolor ρ false))) := by
  refine h.revise rfl (.inl rfl) fun hothers => h.layers.insert ?_ hothers
  have hnumber : made.contains lib.history.length = false := by
    rw [List.contains_eq_mem, decide_eq_false_iff_not]
    exact fun hmem => Nat.lt_irrefl _ (h.past _ hmem)
  rw [isStencil_define, hnumber]

/-- The layer of an aperture is defined. -/
theorem Recolors.defineStencil (h : Recolors ρ made lib lib') {l : Layer α}
    (hl : l.recolor ρ true = l) :
    Recolors ρ (lib.history.length :: made) (lib.revise (.define l))
      (lib'.revise (.define l)) := by
  refine h.revise rfl (.inr rfl) fun hothers => h.layers.insert ?_ hothers
  rw [isStencil_define, List.contains_cons, beq_self_eq_true, Bool.true_or, hl]

/-- An aperture without geometry is defined. -/
theorem Recolors.remove (h : Recolors ρ made lib lib') (id : LayerId) :
    Recolors ρ (lib.history.length :: made) (lib.revise (.remove id))
      (lib'.revise (.remove id)) :=
  h.revise rfl (.inr rfl) fun hothers => h.layers.erase hothers

/-- A variant is as much of a stencil as its base was. -/
theorem Recolors.build (h : Recolors ρ made lib lib') {base : LayerId} (t : Transform α)
    {start : List (Revision α)} (hstart : start <:+ lib.history) (items : List (Item α)) :
    Recolors ρ made (lib.revise (.build base t start.length items))
      (lib'.revise (.build base (t.recolor ρ) start.length
        (items.map (.recolor ρ (isStencil made start base))))) := by
  refine h.revise rfl (.inl rfl) fun hothers => h.layers.insert ?_ hothers
  rw [isStencil_build hstart, Layer.ofItems_recolor]
  rfl

/-- While a variant is being built, revisions are only added. -/
def RecolorsSince (ρ : Polarity → Polarity) (made : List Nat) (start : List (Revision α))
    (lib lib' : Library α) : Prop :=
  start <:+ lib.history ∧ Recolors ρ made lib lib'

variable [Scalar α]

omit [Legible α] in
/-- Items are built alike if the layers that they paste are. What follows may use the items. -/
theorem refines_buildItems {t : Transform α} {nested nested' : LayerId → Action (Library α) LayerId}
    {P E : Library α → Library α → Prop}
    (hnested : ∀ source, Action.Refines (fun _ => False) P (nested source) (nested' source)
      (fun _ => P) E)
    {γ : Type} {Q : γ → Library α → Library α → Prop} (items : List (Item α))
    {next next' : List (Item α) → Action (Library α) γ}
    (hnext : ∀ built, Action.Refines (fun _ => False) P (next built)
      (next' (built.map (.recolor ρ stencil))) Q E) :
    Action.Refines (fun _ => False) P (items.mapM (buildItem t nested) >>= next)
      ((items.map (.recolor ρ stencil)).mapM (buildItem (t.recolor ρ) nested') >>= next') Q E := by
  induction items generalizing next next' with
  | nil => simpa using hnext []
  | cons item rest ih =>
      have hrest (built : Item α) : Action.Refines (fun _ => False) P
          (rest.mapM (buildItem t nested) >>= fun others => next (built :: others))
          ((rest.map (.recolor ρ stencil)).mapM (buildItem (t.recolor ρ) nested') >>= fun others =>
            next' (built.recolor ρ stencil :: others)) Q E :=
        ih fun others => hnext (built :: others)
      simp only [List.map_cons, List.mapM_cons, bind_assoc, pure_bind]
      cases item with
      | shape s =>
          have hshape : (t.recolor ρ).applyShape (if stencil then s else s.recolor ρ) =
              if stencil then t.applyShape s else (t.applyShape s).recolor ρ := by
            cases stencil <;> rfl
          simp only [Item.recolor, buildItem, pure_bind, hshape]
          exact hrest (.shape (t.applyShape s))
      | paste p =>
          simp only [Item.recolor, buildItem, bind_assoc, pure_bind]
          refine Action.Refines.bind (hnested p.source) fun source => ?_
          exact hrest (.paste { p with source, center := t.applyPoint p.center })

/-- **Building a variant.** The induction is on how deep variants are nested. -/
theorem refines_build (t : Transform α) (depth : Nat) (path : List LayerId) (base : LayerId)
    (start : List (Revision α)) :
    Action.Refines (fun _ => False) (RecolorsSince ρ made start) (build t depth path base)
      (build (t.recolor ρ) depth path base) (fun _ => RecolorsSince ρ made start)
      (RecolorsSince ρ made start) := by
  induction depth generalizing path base start with
  | zero => exact .fail fun _ _ h => h
  | succ depth ih =>
      intro lib lib' hlib
      rw [build, build, Action.get_bind, Action.get_bind, Transform.tag_recolor,
        hlib.2.variants, hlib.2.layers base]
      split
      · exact .inr ⟨rfl, hlib⟩
      split
      · exact .inr ⟨rfl, hlib⟩
      cases hlayer : lib.layers[base]? with
      | none => exact .inr ⟨rfl, hlib⟩
      | some layer =>
        dsimp only [Option.map_some]
        rw [Layer.items_recolor, hlib.2.length_history]
        have hlater (c c' : Library α) (h : RecolorsSince ρ made lib.history c c') :
            RecolorsSince ρ made start c c' := ⟨hlib.1.trans h.1, h.2⟩
        have hnow : RecolorsSince ρ made lib.history lib lib' := ⟨List.suffix_refl _, hlib.2⟩
        refine Action.Refines.weaken ?_ (fun _ => hlater) hlater lib lib' hnow
        -- the variants of what is pasted are built after the layer has been looked up
        refine refines_buildItems (fun source => ih (base :: path) source lib.history)
          layer.items.toList fun built => ?_
        refine Action.Refines.bind (M := fun _ => RecolorsSince ρ made lib.history)
          (.modify fun c c' h => ⟨?_, h.2.build t h.1 built⟩) fun _ => .pure fun _ _ h => h
        rw [history_revise]
        exact h.1.trans (List.suffix_cons _ _)

/-- The variant of a layer. -/
theorem refines_variant (t : Transform α) (base : LayerId) :
    Action.Refines (fun _ => False) (Recolors ρ made) (variant t base)
      (variant (t.recolor ρ) base) (fun _ => Recolors ρ made) (Recolors ρ made) := by
  intro lib lib' hlib
  have hcontains : lib'.layers.contains base = lib.layers.contains base := by
    rw [Std.TreeMap.contains_eq_isSome_getElem?, Std.TreeMap.contains_eq_isSome_getElem?,
      hlib.layers base, Option.isSome_map]
  have hidentity : (t.recolor ρ).isIdentity = t.isIdentity := rfl
  rw [variant, variant, Action.get_bind, Action.get_bind, hcontains, hidentity]
  split
  · exact .inr ⟨rfl, hlib⟩
  split
  · exact .inr ⟨rfl, hlib⟩
  · rw [nestingBound_eq hlib.layers]
    exact (refines_build t (nestingBound lib.layers) [] base lib.history).weaken
      (fun _ _ _ h => h.2) (fun _ _ h => h.2) lib lib' ⟨List.suffix_refl _, hlib⟩

/-- A relation of libraries that layers in other colors and their variants keep. -/
structure Indifferent (ρ : Polarity → Polarity) (L : Library α → Library α → Prop) : Prop where
  define {lib lib' : Library α} (l : Layer α) :
    L lib lib' → L (lib.revise (.define l)) (lib'.revise (.define (l.recolor ρ false)))
  variant (t : Transform α) (base : LayerId) :
    Action.Refines (fun _ => False) L (variant t base) (variant (t.recolor ρ) base) (fun _ => L) L

/-- Libraries in other colors stay so whatever revisions are made of them. -/
theorem indifferent_recolors : Indifferent ρ (Recolors ρ made : Library α → Library α → Prop) where
  define l h := h.define l
  variant := refines_variant

end Library

/-! ### Pictures -/

namespace Picture

variable {isStencil : LayerId → Bool}

/-- The commands of a picture with other colors, from a place inside of a stencil or not. -/
def recolorFrom (ρ : Polarity → Polarity) (isStencil : LayerId → Bool) :
    Bool → Picture α → Picture α
  | _, [] => []
  | _, .startLayer id bounds :: rest =>
    .startLayer id bounds :: recolorFrom ρ isStencil (isStencil id) rest
  | stencil, .shape s :: rest =>
    .shape (if stencil then s else s.recolor ρ) :: recolorFrom ρ isStencil stencil rest
  | stencil, .paste p :: rest => .paste (p.recolor ρ) :: recolorFrom ρ isStencil stencil rest
  | _, .endLayer :: rest => .endLayer :: recolorFrom ρ isStencil false rest

/-- A picture with other colors. The shapes of stencils keep theirs. -/
def recolor (ρ : Polarity → Polarity) (isStencil : LayerId → Bool) (p : Picture α) : Picture α :=
  recolorFrom ρ isStencil false p

/-- The items of a picture are recolored by the layer that they are in. -/
theorem recolorFrom_items (items : List (Item α)) (rest : Picture α) :
    recolorFrom ρ isStencil stencil (items.map DrawCommand.ofItem ++ rest) =
      (items.map (.recolor ρ stencil)).map DrawCommand.ofItem ++
        recolorFrom ρ isStencil stencil rest := by
  induction items with
  | nil => rfl
  | cons item others ih => cases item <;> exact congrArg _ ih

/-- A group is recolored as its layer is. -/
theorem recolor_group (id : LayerId) (items : List (Item α)) (box : Bounds α) [Scalar α]
    (rest : Picture α) :
    (group id items box ++ rest).recolor ρ isStencil =
      group id (items.map (.recolor ρ (isStencil id))) box ++ rest.recolor ρ isStencil := by
  rw [recolor, group, group, List.append_assoc, List.cons_append, recolorFrom, recolorFrom_items,
    List.append_assoc, List.cons_append]
  rfl

/-- To leave all colors alone changes nothing. -/
theorem recolorFrom_id (p : Picture α) : recolorFrom id isStencil stencil p = p := by
  induction p generalizing stencil with
  | nil => rfl
  | cons command rest ih =>
      cases command with
      | shape s => cases stencil <;> exact congrArg _ ih
      | startLayer | paste | endLayer => exact congrArg _ ih

/-- The identity leaves all colors alone. -/
theorem recolor_id (p : Picture α) : p.recolor id isStencil = p := recolorFrom_id p

variable [Scalar α]

/-- Colors do not change the box of items. -/
theorem itemBounds_recolor (boxes : Std.TreeMap LayerId (Bounds α)) (items : List (Item α)) :
    itemBounds boxes (items.map (.recolor ρ stencil)) = itemBounds boxes items := by
  rw [itemBounds, itemBounds, List.foldl_map]
  congr 1
  funext box item
  cases item with
  | shape s => cases stencil <;> rfl
  | paste p => rfl

variable {layers layers' : LayerTable α}

/-- The groups of recolored layers are recolored. -/
theorem groups_recolor (h : LayerTable.Recolors ρ isStencil layers layers')
    (boxes : Std.TreeMap LayerId (Bounds α)) (ids : List LayerId) :
    groups layers' boxes ids = (groups layers boxes ids).map (recolor ρ isStencil) := by
  induction ids generalizing boxes with
  | nil => rfl
  | cons id rest ih =>
      rw [groups, groups, h id]
      cases layers[id]? with
      | none => rfl
      | some layer =>
          simp only [Option.map_some, Layer.items_recolor, itemBounds_recolor, ih]
          cases groups layers (boxes.insert id (itemBounds boxes layer.items.toList)) rest with
          | error e => rfl
          | ok others => exact congrArg Except.ok (recolor_group id _ _ others).symm

/-- **Recolored layers** make a recolored picture. -/
theorem ofLayers_recolor (h : LayerTable.Recolors ρ isStencil layers layers') :
    ofLayers layers' = (ofLayers layers).map (recolor ρ isStencil) := by
  rw [ofLayers, ofLayers, h.order_eq]
  cases layers.order with
  | error e => rfl
  | ok ids => exact groups_recolor h ∅ ids

end Picture

end Photoplot
