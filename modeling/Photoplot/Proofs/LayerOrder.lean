import Mathlib.Logic.Relation
import Photoplot.Layer.Order

/-!
# The Order of Layers is Topological

The order of layers is found for every table of layers, whatever its layers paste: layers may be
pasted by many others, paste themselves in a circle, or paste layers that are not there. It holds
the layers that the main layer reaches by pastes, and an error names a layer that stands in the
way of any such order.

## Paste convention

A layer pastes what its items paste. The search follows the dependencies that a layer keeps about
itself instead, which are the same layers (`mem_dependsOn_iff_pastes`) however the layer grew.

## Main results

* `LayerTable.visited_visit`: what one visit adds, by induction on the search.
* `LayerTable.Placed.not_onCircle`: what is in such an order lies on no circle of pastes.
* `LayerTable.order_isTopological`: the order and its errors.
-/

open Relation

namespace Photoplot.LayerTable

variable {α : Type} {layers : LayerTable α}

/-! ### Tables that grow -/

/-- A table that has all layers of another one. -/
def Includes (layers' layers : LayerTable α) : Prop :=
  ∀ (id : LayerId) (layer : Layer α), layers[id]? = some layer → layers'[id]? = some layer

/-- Every table has its own layers. -/
theorem Includes.refl (layers : LayerTable α) : layers.Includes layers := fun _ _ h => h

/-- A table that has grown twice has grown. -/
theorem Includes.trans {layers' layers'' : LayerTable α} (h : layers''.Includes layers')
    (h' : layers'.Includes layers) : layers''.Includes layers :=
  fun id layer hlayer => h id layer (h' id layer hlayer)

/-- What is known stays what it is. -/
theorem Includes.lookup {layers' : LayerTable α} (h : layers'.Includes layers) {id : LayerId}
    (hid : id ∈ layers) : layers'[id]? = layers[id]? := by
  obtain ⟨layer, hlayer⟩ := mem_iff_lookup.mp hid
  rw [hlayer, h id layer hlayer]

/-- What is known stays known. -/
theorem Includes.mem {layers' : LayerTable α} (h : layers'.Includes layers) {id : LayerId}
    (hid : id ∈ layers) : id ∈ layers' := by
  rw [mem_iff_lookup, h.lookup hid]
  exact mem_iff_lookup.mp hid

/-- A new layer leaves the others as they are. -/
theorem includes_insert {id : LayerId} (hnew : id ∉ layers) (layer : Layer α) :
    Includes (layers.insert id layer) layers := by
  intro other layer' hlayer'
  rw [lookup_insert, if_neg, hlayer']
  rintro rfl
  exact hnew (mem_iff_lookup.mpr ⟨layer', hlayer'⟩)

/-! ### Pastes -/

/-- A layer of the table pastes a layer, which need not be in the table. -/
def Pastes (layers : LayerTable α) (id source : LayerId) : Prop :=
  ∃ layer, layers[id]? = some layer ∧ source ∈ Item.sources layer.items.toList

/-- A layer is pasted by another one, or by what that one pastes, or is that one itself. -/
abbrev Reaches (layers : LayerTable α) : LayerId → LayerId → Prop := ReflTransGen layers.Pastes

/-- A layer is on a **circle** of pastes when it comes to paste itself. -/
def OnCircle (layers : LayerTable α) (id : LayerId) : Prop := TransGen layers.Pastes id id

/-- A layer depends on what it pastes. -/
theorem mem_dependsOn_iff_pastes {id source : LayerId} {layer : Layer α}
    (hlayer : layers[id]? = some layer) :
    source ∈ layer.dependsOn.toList ↔ layers.Pastes id source := by
  rw [Std.TreeSet.mem_toList, layer.mem_dependsOn]
  constructor
  · exact fun h => ⟨layer, hlayer, h⟩
  · rintro ⟨other, hother, h⟩
    obtain rfl : layer = other := Option.some.inj (hlayer.symm.trans hother)
    exact h

/-- A layer can be **drawn** when everything that it reaches is there and on no circle of pastes. -/
def Drawable (layers : LayerTable α) (id : LayerId) : Prop :=
  ∀ other, layers.Reaches id other → other ∈ layers ∧ ¬ layers.OnCircle other

/-- A layer can be drawn when all that it pastes can. -/
theorem drawable_of_sources {id : LayerId} (hknown : id ∈ layers)
    (hsources : ∀ source, layers.Pastes id source → layers.Drawable source) :
    layers.Drawable id := by
  intro other hreach
  rcases hreach.cases_head with rfl | ⟨source, hpastes, hrest⟩
  · refine ⟨hknown, fun hcircle => ?_⟩
    -- a circle through the layer leads through one of its sources
    obtain ⟨source, hpastes, hback⟩ := TransGen.head'_iff.mp hcircle
    exact (hsources source hpastes id hback).2 hcircle
  · exact hsources source hpastes other hrest

/-! ### Orders -/

/-- Layers of the table in an order that they can be drawn in: each comes once, and after all the
layers that it pastes. -/
structure Placed (layers : LayerTable α) (found : List LayerId) : Prop where
  nodup : found.Nodup
  known : ∀ id ∈ found, id ∈ layers
  sources_before {before after : List LayerId} {id source : LayerId} :
    found = before ++ id :: after → layers.Pastes id source → source ∈ before

/-- An order of the layers that the main layer needs. -/
structure IsOrder (layers : LayerTable α) (found : List LayerId) : Prop
    extends layers.Placed found where
  mem_iff_reaches (id : LayerId) : id ∈ found ↔ layers.Reaches .main id
  main_last : found.getLast? = some .main

/-- No layers are in any order. -/
theorem placed_nil : layers.Placed [] where
  nodup := List.nodup_nil
  known := by simp
  sources_before h := by simp at h

/-- A layer can be drawn when everything that it pastes has been drawn. -/
theorem Placed.snoc {found : List LayerId} {id : LayerId} (h : layers.Placed found)
    (hnew : id ∉ found) (hknown : id ∈ layers)
    (hsources : ∀ source, layers.Pastes id source → source ∈ found) :
    layers.Placed (found ++ [id]) where
  nodup := List.nodup_append.mpr ⟨h.nodup, List.pairwise_singleton _ id, by
    rintro x hx _ hy rfl
    exact hnew (List.mem_singleton.mp hy ▸ hx)⟩
  known x hx := by
    rcases List.mem_append.mp hx with hx | hx
    · exact h.known x hx
    · exact List.mem_singleton.mp hx ▸ hknown
  sources_before {before after x source} hsplit hpastes := by
    rcases List.append_eq_append_iff.mp hsplit with ⟨between, hbefore, hafter⟩ |
      ⟨between, hfound, hafter⟩
    · -- the split lies at the new layer, which is the last one
      have hx : between = [] ∧ x = id := by
        cases between with
        | nil => simp_all
        | cons _ _ => simp at hafter
      obtain ⟨rfl, rfl⟩ := hx
      simpa [hbefore] using hsources source hpastes
    · cases between with
      | nil =>
          obtain ⟨rfl, -⟩ : x = id ∧ after = [] := by simpa using hafter
          simpa [hfound] using hsources source hpastes
      | cons y rest =>
          obtain ⟨rfl, -⟩ : x = y ∧ after = rest ++ [id] := by simpa using hafter
          exact h.sources_before hfound hpastes

/-- What a layer reaches by at least one paste comes before it. -/
theorem Placed.mem_before_of_transGen {found before after : List LayerId} {id other : LayerId}
    (h : layers.Placed found) (hreach : TransGen layers.Pastes id other)
    (hsplit : found = before ++ id :: after) : other ∈ before := by
  induction hreach using TransGen.head_induction_on generalizing before after with
  | single hpastes => exact h.sources_before hsplit hpastes
  | @head x middle hpastes _ ih =>
      obtain ⟨first, second, hbefore⟩ := List.append_of_mem (h.sources_before hsplit hpastes)
      have hmiddle : found = first ++ middle :: (second ++ x :: after) := by
        rw [hsplit, hbefore, List.append_assoc, List.cons_append]
      rw [hbefore]
      exact List.mem_append_left _ (ih hmiddle)

/-- What a layer of the order reaches is in the order. -/
theorem Placed.mem_of_reaches {found : List LayerId} {id other : LayerId}
    (h : layers.Placed found) (hid : id ∈ found) (hreach : layers.Reaches id other) :
    other ∈ found := by
  rcases reflTransGen_iff_eq_or_transGen.mp hreach with rfl | htrans
  · exact hid
  · obtain ⟨before, after, hsplit⟩ := List.append_of_mem hid
    simp [hsplit, h.mem_before_of_transGen htrans hsplit]

/-- No circle of pastes goes through the layers of an order. -/
theorem Placed.not_onCircle {found : List LayerId} {id : LayerId} (h : layers.Placed found)
    (hid : id ∈ found) : ¬ layers.OnCircle id := by
  intro hcircle
  obtain ⟨before, after, hsplit⟩ := List.append_of_mem hid
  have hbefore : id ∈ before := h.mem_before_of_transGen hcircle hsplit
  have hnodup := hsplit ▸ h.nodup
  exact (List.nodup_append.mp hnodup).2.2 id hbefore id List.mem_cons_self rfl

/-! ### The search -/

/-- A layer that is met for the first time comes after what it depends on. -/
theorem visit_of_dependsOn {path found ids : List LayerId} {id : LayerId} (hfound : id ∉ found)
    (hpath : id ∉ path) (hids : (layers[id]?.map fun layer => layer.dependsOn.toList) = some ids) :
    layers.visit path found id = (layers.visitAll (id :: path) found ids).map (· ++ [id]) := by
  obtain ⟨layer, hlayer, rfl⟩ := Option.map_eq_some_iff.mp hids
  rw [visit, if_neg (by simpa using hfound), if_neg (by simpa using hpath)]
  split
  · rename_i hnone
    rw [hlayer] at hnone
    cases hnone
  · rename_i other hother
    obtain rfl : layer = other := Option.some.inj (hlayer.symm.trans hother)
    rfl

/-- Layers each of which depends on the next one only, up to the last one. -/
def IsChain (layers : LayerTable α) : List LayerId → Prop
  | [] => True
  | id :: rest =>
    (layers[id]?.map fun layer => layer.dependsOn.toList) = some rest.head?.toList ∧
      layers.IsChain rest

/-- A chain is found from its end. -/
theorem visit_of_isChain {path rest : List LayerId} {id : LayerId}
    (hchain : layers.IsChain (id :: rest)) (hnodup : (id :: rest).Nodup)
    (hpath : ∀ other ∈ id :: rest, other ∉ path) :
    layers.visit path [] id = .ok (id :: rest).reverse := by
  induction rest generalizing path id with
  | nil =>
      rw [visit_of_dependsOn (by simp) (hpath id (by simp)) hchain.1, List.head?_nil,
        Option.toList_none, visitAll]
      rfl
  | cons next rest ih =>
      have hnext : layers.visit (id :: path) [] next = .ok (next :: rest).reverse := by
        refine ih hchain.2 (List.nodup_cons.mp hnodup).2 fun other hother => ?_
        rw [List.mem_cons, not_or]
        refine ⟨?_, hpath other (List.mem_cons_of_mem _ hother)⟩
        rintro rfl
        exact (List.nodup_cons.mp hnodup).1 hother
      rw [visit_of_dependsOn (by simp) (hpath id (by simp)) hchain.1, List.head?_cons,
        Option.toList_some, visitAll, hnext, List.reverse_cons, List.reverse_cons]
      simp [visitAll, Except.bind, Except.map]

/-- The order of layers that form a chain from the main layer. -/
theorem order_of_isChain {rest : List LayerId} (hchain : layers.IsChain (.main :: rest))
    (hnodup : (LayerId.main :: rest).Nodup) : layers.order = .ok (LayerId.main :: rest).reverse :=
  visit_of_isChain hchain hnodup (by simp)

/-- An error that is reported for a reason: the layer that it names is reached from one of `ids`,
and is on a circle of pastes or missing. -/
inductive IsFault (layers : LayerTable α) (ids : List LayerId) : Error → Prop
  | cyclicLayer {id fault : LayerId} (hid : id ∈ ids) (hreach : layers.Reaches id fault)
      (hcircle : layers.OnCircle fault) : IsFault layers ids (.cyclicLayer fault)
  | layerNotFound {id fault : LayerId} (hid : id ∈ ids) (hreach : layers.Reaches id fault)
      (hmissing : fault ∉ layers) : IsFault layers ids (.layerNotFound fault)

/-- A fault of what is reached is one of what reaches it. -/
theorem IsFault.of_reaches {ids others : List LayerId} {e : Error} (h : layers.IsFault ids e)
    (hids : ∀ id ∈ ids, ∃ other ∈ others, layers.Reaches other id) : layers.IsFault others e := by
  cases h with
  | cyclicLayer hid hreach hcircle =>
      obtain ⟨other, hother, hbegin⟩ := hids _ hid
      exact .cyclicLayer hother (hbegin.trans hreach) hcircle
  | layerNotFound hid hreach hmissing =>
      obtain ⟨other, hother, hbegin⟩ := hids _ hid
      exact .layerNotFound hother (hbegin.trans hreach) hmissing

/-- A layer with a fault cannot be drawn. -/
theorem IsFault.not_drawable {id : LayerId} {e : Error} (h : layers.IsFault [id] e) :
    ¬ layers.Drawable id := by
  intro hdrawable
  cases h with
  | cyclicLayer hid hreach hcircle =>
      obtain rfl := List.mem_singleton.mp hid
      exact (hdrawable _ hreach).2 hcircle
  | layerNotFound hid hreach hmissing =>
      obtain rfl := List.mem_singleton.mp hid
      exact hmissing (hdrawable _ hreach).1

/-- What the search makes of the layers `found` when it adds `ids` while the layers in `path` are
being visited. -/
structure Extends (layers : LayerTable α) (path found ids found' : List LayerId) : Prop where
  placed : layers.Placed found'
  kept : found ⊆ found'
  added : ids ⊆ found'
  /-- Nothing is added but what is reached, and nothing that is still being visited. -/
  only : ∀ x ∈ found', x ∈ found ∨ x ∉ path ∧ ∃ id ∈ ids, layers.Reaches id x

/-- The outcome of a search for `ids`. -/
def Visited (layers : LayerTable α) (path found ids : List LayerId) :
    Except Error (List LayerId) → Prop
  | .ok found' => layers.Extends path found ids found'
  | .error e => layers.IsFault ids e

mutual

/-- **One visit.** It is enough that the layers being visited are those that led to the layer. -/
theorem visited_visit (layers : LayerTable α) (path found : List LayerId) (id : LayerId)
    (hfound : layers.Placed found) (hpath : ∀ p ∈ path, TransGen layers.Pastes p id) :
    layers.Visited path found [id] (layers.visit path found id) := by
  rw [visit]
  split
  · rename_i hmem
    have hmem : id ∈ found := by simpa using hmem
    exact ⟨hfound, fun _ h => h, by simpa using hmem, fun _ h => .inl h⟩
  split
  · rename_i hmem
    have hmem : id ∈ path := by simpa using hmem
    exact .cyclicLayer List.mem_cons_self .refl (hpath id hmem)
  rename_i hnew hopen
  split
  · rename_i hmissing
    refine .layerNotFound List.mem_cons_self .refl ?_
    simp [mem_iff_lookup, hmissing]
  · rename_i layer hlayer
    have hstep : ∀ source ∈ layer.dependsOn.toList, ∀ p ∈ id :: path,
        TransGen layers.Pastes p source := by
      intro source hsource p hp
      have hpastes := (mem_dependsOn_iff_pastes hlayer).mp hsource
      rcases List.mem_cons.mp hp with rfl | hp
      · exact .single hpastes
      · exact (hpath p hp).tail hpastes
    have hall := visited_visitAll layers (id :: path) found layer.dependsOn.toList hfound hstep
    have hfrom : ∀ source ∈ layer.dependsOn.toList, ∃ other ∈ [id],
        layers.Reaches other source := fun source hsource =>
      ⟨id, List.mem_cons_self, .single ((mem_dependsOn_iff_pastes hlayer).mp hsource)⟩
    cases hresult : layers.visitAll (id :: path) found layer.dependsOn.toList with
    | error e =>
        rw [hresult] at hall
        exact IsFault.of_reaches hall hfrom
    | ok found' =>
        rw [hresult] at hall
        obtain ⟨hplaced, hkept, hadded, honly⟩ := hall
        have hid : id ∉ found' := fun h => by
          rcases honly id h with h | ⟨h, -⟩
          · exact hnew (by simpa using h)
          · exact h List.mem_cons_self
        refine ⟨hplaced.snoc hid ?_ ?_, ?_, by simp, ?_⟩
        · exact mem_iff_lookup.mpr ⟨layer, hlayer⟩
        · exact fun source h => hadded ((mem_dependsOn_iff_pastes hlayer).mpr h)
        · exact fun x hx => List.mem_append_left _ (hkept hx)
        · intro x hx
          rcases List.mem_append.mp hx with hx | hx
          · refine (honly x hx).imp_right ?_
            rintro ⟨hx, source, hsource, hreach⟩
            obtain ⟨other, hother, hbegin⟩ := hfrom source hsource
            exact ⟨fun h => hx (List.mem_cons_of_mem _ h), other, hother, hbegin.trans hreach⟩
          · obtain rfl : x = id := List.mem_singleton.mp hx
            exact .inr ⟨by simpa using hopen, x, List.mem_cons_self, .refl⟩
termination_by (layers.outside path, 0)
decreasing_by
  exact Prod.Lex.left _ _ (outside_cons_lt ‹_› ‹_›)

/-- **One visit after the other.** -/
theorem visited_visitAll (layers : LayerTable α) (path found ids : List LayerId)
    (hfound : layers.Placed found)
    (hpath : ∀ id ∈ ids, ∀ p ∈ path, TransGen layers.Pastes p id) :
    layers.Visited path found ids (layers.visitAll path found ids) := by
  match ids with
  | [] =>
      rw [visitAll]
      exact ⟨hfound, fun _ h => h, List.nil_subset _, fun _ h => .inl h⟩
  | id :: rest =>
      rw [visitAll]
      have hfirst := visited_visit layers path found id hfound (hpath id List.mem_cons_self)
      cases hresult : layers.visit path found id with
      | error e =>
          rw [hresult] at hfirst
          exact IsFault.of_reaches hfirst fun x hx => ⟨x, by simp_all, .refl⟩
      | ok middle =>
          rw [hresult] at hfirst
          have hrest := visited_visitAll layers path middle rest hfirst.placed
            fun x hx => hpath x (List.mem_cons_of_mem _ hx)
          show layers.Visited path found (id :: rest) (layers.visitAll path middle rest)
          cases hlast : layers.visitAll path middle rest with
          | error e =>
              rw [hlast] at hrest
              exact IsFault.of_reaches hrest fun x hx => ⟨x, List.mem_cons_of_mem _ hx, .refl⟩
          | ok found' =>
              rw [hlast] at hrest
              refine ⟨hrest.placed, fun _ hx => hrest.kept (hfirst.kept hx), ?_, ?_⟩
              · refine List.cons_subset.mpr ⟨hrest.kept (hfirst.added List.mem_cons_self), ?_⟩
                exact hrest.added
              · intro x hx
                rcases hrest.only x hx with hx | ⟨hx, source, hsource, hreach⟩
                · refine (hfirst.only x hx).imp_right ?_
                  rintro ⟨hx, source, hsource, hreach⟩
                  exact ⟨hx, source, by simp_all, hreach⟩
                · exact .inr ⟨hx, source, List.mem_cons_of_mem _ hsource, hreach⟩
termination_by (layers.outside path, ids.length + 1)
decreasing_by
  · exact Prod.Lex.right _ (by simp)
  · exact Prod.Lex.right _ (by simp)

end

/-- The main layer is the last one that its own visit adds. -/
theorem getLast?_order {found : List LayerId} (h : layers.order = .ok found) :
    found.getLast? = some .main := by
  rw [order, visit] at h
  simp only [List.contains_nil, Bool.false_eq_true, if_false] at h
  split at h
  · cases h
  · cases hresult : layers.visitAll [.main] [] _ with
    | error e =>
        rw [hresult] at h
        cases h
    | ok deps =>
        rw [hresult] at h
        obtain rfl := Except.ok.inj h
        simp

/-- The search from the main layer begins with nothing found. -/
theorem visited_order (layers : LayerTable α) : layers.Visited [] [] [.main] layers.order :=
  visited_visit layers [] [] .main placed_nil (by simp)

/-- What is found from the main layer is an order. -/
theorem isOrder_of_order {found : List LayerId} (h : layers.order = .ok found) :
    layers.IsOrder found := by
  have hvisited := layers.visited_order
  rw [h] at hvisited
  obtain ⟨hplaced, -, hadded, honly⟩ := hvisited
  refine { hplaced with mem_iff_reaches := fun id => ⟨fun hid => ?_, ?_⟩, main_last := ?_ }
  · rcases honly id hid with hid | ⟨-, other, hother, hreach⟩
    · simp at hid
    · exact List.mem_singleton.mp hother ▸ hreach
  · exact hplaced.mem_of_reaches (hadded List.mem_cons_self)
  · exact getLast?_order h

/-- When no order is found, the error is a fault of the main layer. -/
theorem isFault_of_order {e : Error} (h : layers.order = .error e) : layers.IsFault [.main] e := by
  have hvisited := layers.visited_order
  rw [h] at hvisited
  exact hvisited

/-- There is an order when nothing that is reached is missing or on a circle. -/
theorem exists_order (h : layers.Drawable .main) : ∃ found, layers.order = .ok found := by
  cases horder : layers.order with
  | ok found => exact ⟨found, rfl⟩
  | error e => exact absurd h (isFault_of_order horder).not_drawable

/-- **The order of layers.** The search ends for every table. It gives an order exactly when every
layer that the main layer reaches is there and on no circle of pastes. Then the order holds these
layers and no others, each of them once and after all that it pastes, and the main layer is last.
Otherwise the error names a layer that is reached, and is on a circle or missing as it says. -/
theorem order_isTopological (layers : LayerTable α) :
    (∀ found, layers.order = .ok found → layers.IsOrder found) ∧
    ((∃ found, layers.order = .ok found) ↔
      ∀ id, layers.Reaches .main id → id ∈ layers ∧ ¬ layers.OnCircle id) ∧
    (∀ e, layers.order = .error e → layers.IsFault [.main] e) := by
  refine ⟨fun _ => isOrder_of_order, ⟨?_, exists_order⟩, fun _ => isFault_of_order⟩
  rintro ⟨found, h⟩ id hreach
  have horder := isOrder_of_order h
  have hid : id ∈ found := (horder.mem_iff_reaches id).mpr hreach
  exact ⟨horder.known id hid, horder.not_onCircle hid⟩

end Photoplot.LayerTable
