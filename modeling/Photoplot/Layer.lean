import Photoplot.Geometry.Shape
import Photoplot.Identifier

/-!
# Layers

A layer is drawn by items in order: shapes, and pastes of other layers. It depends on the layers
that it pastes.

## Main definitions

* `Paste`, `Item`, `Layer`.
* `Layer.push`, `Layer.append`, `Layer.appendTranslated`: how layers grow.
* `Layer.dependsOn`: the layers that a layer pastes, kept up to date while it grows.
-/

namespace Photoplot

/-- A paste of another layer, whose origin comes to lie on `center`. -/
structure Paste (α : Type) where
  source : LayerId
  center : Point α
  polarity : Polarity
deriving DecidableEq, Repr

/-- What a layer is drawn by. -/
inductive Item (α : Type) where
  | shape (s : Shape α)
  | paste (p : Paste α)
deriving DecidableEq, Repr

namespace Item

variable {α : Type}

/-- An item moved by an offset. -/
def translate [Scalar α] (offset : Point α) : Item α → Item α
  | shape s => shape (s.translate offset)
  | paste p => paste { p with center := p.center + offset }

/-- The layer that an item pastes. -/
def source? : Item α → Option LayerId
  | shape _ => none
  | paste p => some p.source

/-- Whether an item is a shape. -/
def isShape : Item α → Bool
  | shape _ => true
  | paste _ => false

end Item

/-- The layers that some items paste, in the order of items. -/
def Item.sources {α : Type} (items : List (Item α)) : List LayerId := items.filterMap Item.source?

/-- The layers that two lists of items paste, one after the other. -/
theorem Item.sources_append {α : Type} (items items' : List (Item α)) :
    Item.sources (items ++ items') = Item.sources items ++ Item.sources items' :=
  List.filterMap_append

/-- Shapes paste nothing. -/
theorem Item.sources_shapes {α : Type} (shapes : List (Shape α)) :
    Item.sources (shapes.map .shape) = [] := by
  simp [Item.sources, Item.source?]

/-- A layer, which knows the layers that its items paste. -/
structure Layer (α : Type) where
  id : LayerId
  items : Array (Item α)
  /-- The layers that the layer depends on, by their names. -/
  dependsOn : Std.TreeSet LayerId
  mem_dependsOn (source : LayerId) : source ∈ dependsOn ↔ source ∈ Item.sources items.toList

namespace Layer

variable {α : Type}

/-- A layer without items. -/
def empty (id : LayerId) : Layer α where
  id
  items := #[]
  dependsOn := ∅
  mem_dependsOn := by simp [Item.sources]

/-- Adds an item. A paste makes the layer depend on its source. -/
def push (l : Layer α) (item : Item α) : Layer α where
  id := l.id
  items := l.items.push item
  dependsOn := match item.source? with
    | none => l.dependsOn
    | some source => l.dependsOn.insert source
  mem_dependsOn source := by
    cases h : item.source? with
    | none => simp [Item.sources, h, l.mem_dependsOn]
    | some pasted =>
      simp only [Std.TreeSet.mem_insert, Std.compare_eq_iff_eq, l.mem_dependsOn, Item.sources,
        Array.toList_push, List.filterMap_append, List.filterMap_cons, h, List.filterMap_nil,
        List.mem_append, List.mem_singleton]
      exact ⟨fun hs => hs.symm.imp_right Eq.symm, fun hs => hs.symm.imp_left Eq.symm⟩

/-- Adds a shape. -/
def pushShape (l : Layer α) (s : Shape α) : Layer α := l.push (.shape s)

/-- Adds items in order. -/
def append (l : Layer α) (items : List (Item α)) : Layer α := items.foldl push l

/-- A layer with given items. -/
def ofItems (id : LayerId) (items : List (Item α)) : Layer α := (empty id).append items

/-- Adds the items of another layer, moved by an offset. -/
def appendTranslated [Scalar α] (l other : Layer α) (offset : Point α) : Layer α :=
  l.append (other.items.toList.map (Item.translate offset))

/-- The number of shapes among the items. -/
def shapeCount (l : Layer α) : Nat := l.items.countP Item.isShape

/-! ### How layers grow -/

/-- A layer without items has the id that it is made with. -/
@[simp] theorem id_empty (id : LayerId) : (empty id : Layer α).id = id := rfl

/-- A layer that is made empty has no items. -/
@[simp] theorem items_empty (id : LayerId) : (empty id : Layer α).items.toList = [] := rfl

/-- An item does not change the id. -/
@[simp] theorem id_push (l : Layer α) (item : Item α) : (l.push item).id = l.id := rfl

/-- An item comes after all others. -/
@[simp] theorem items_push (l : Layer α) (item : Item α) :
    (l.push item).items.toList = l.items.toList ++ [item] := by
  simp [push]

/-- Items do not change the id. -/
@[simp] theorem id_append (l : Layer α) (items : List (Item α)) : (l.append items).id = l.id := by
  induction items generalizing l with
  | nil => rfl
  | cons item rest ih => exact ih (l.push item)

/-- Items that are added come after all others, in their order. -/
@[simp] theorem items_append (l : Layer α) (items : List (Item α)) :
    (l.append items).items.toList = l.items.toList ++ items := by
  induction items generalizing l with
  | nil => simp [append]
  | cons item rest ih => exact (ih (l.push item)).trans (by simp)

/-- Items may be added in one go or in two. -/
theorem append_append (l : Layer α) (items items' : List (Item α)) :
    (l.append items).append items' = l.append (items ++ items') :=
  List.foldl_append.symm

/-- A layer with given items has the id that it is made with. -/
@[simp] theorem id_ofItems (id : LayerId) (items : List (Item α)) : (ofItems id items).id = id :=
  id_append (empty id) items

/-- A layer with given items has these items. -/
@[simp] theorem items_ofItems (id : LayerId) (items : List (Item α)) :
    (ofItems id items).items.toList = items := by
  simp [ofItems]

/-- The items of another layer do not change the id. -/
@[simp] theorem id_appendTranslated [Scalar α] (l other : Layer α) (offset : Point α) :
    (l.appendTranslated other offset).id = l.id :=
  id_append _ _

/-- The items of another layer come after all others, each moved by the offset. -/
@[simp] theorem items_appendTranslated [Scalar α] (l other : Layer α) (offset : Point α) :
    (l.appendTranslated other offset).items.toList =
      l.items.toList ++ other.items.toList.map (Item.translate offset) :=
  items_append _ _

end Layer

end Photoplot
