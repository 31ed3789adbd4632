import Photoplot.Layer.Order

/-!
# Pictures

A picture is a flat list of drawing commands in groups, one group for each layer. A layer pastes
only layers whose groups come before its own, and the main layer is the last one.

## Main definitions

* `DrawCommand`, `Picture`.
* `Picture.ofLayers`: the picture of a table of layers.
* `Picture.layerIds`, `layer?`, `layerBounds?`, `shapes`, `pastes`: what a picture says about its
  layers.
-/

namespace Photoplot

/-- A command of a picture. -/
inductive DrawCommand (α : Type) where
  /-- A layer begins. It has no bounds if nothing in it has an extent. -/
  | startLayer (id : LayerId) (bounds : Option (Bounds α))
  | shape (s : Shape α)
  | paste (p : Paste α)
  | endLayer
deriving DecidableEq, Repr

/-- Drawing commands in order. -/
abbrev Picture (α : Type) := List (DrawCommand α)

/-- The command that draws an item. -/
def DrawCommand.ofItem {α : Type} : Item α → DrawCommand α
  | .shape s => .shape s
  | .paste p => .paste p

namespace Picture

variable {α : Type}

/-! ### Making pictures -/

section Making

variable [Scalar α]

/-- The bounding box of items, given those of the layers that they paste. A paste of a layer
without a known box adds nothing. -/
def itemBounds (boxes : Std.TreeMap LayerId (Bounds α)) (items : List (Item α)) : Bounds α :=
  items.foldl (fun box item =>
    match item with
    | .shape s => box.join s.bounds
    | .paste p =>
      match boxes[p.source]? with
      | some pasted => box.join (pasted.translate p.center)
      | none => box) .empty

/-- The group of a layer with given items and bounding box. -/
def group (id : LayerId) (items : List (Item α)) (box : Bounds α) : Picture α :=
  .startLayer id (if box.isEmpty then none else some box) :: items.map .ofItem ++ [.endLayer]

/-- The groups of layers in order, given the boxes of the layers before them. -/
def groups (layers : LayerTable α) (boxes : Std.TreeMap LayerId (Bounds α)) :
    List LayerId → Except Error (Picture α)
  | [] => .ok []
  | id :: rest =>
    match layers[id]? with
    | none => .error (.layerNotFound id)
    | some layer =>
      let items := layer.items.toList
      let box := itemBounds boxes items
      (groups layers (boxes.insert id box) rest).map (group id items box ++ ·)

/-- The picture of the main layer and all layers that it depends on. -/
def ofLayers (layers : LayerTable α) : Except Error (Picture α) :=
  layers.order.bind (groups layers ∅)

end Making

/-! ### Reading pictures -/

/-- The ids of the layers, in order. -/
def layerIds (p : Picture α) : List LayerId :=
  p.filterMap fun
    | .startLayer id _ => some id
    | _ => none

/-- Whether a command begins a given layer. -/
def starts (id : LayerId) : DrawCommand α → Bool
  | .startLayer other _ => other == id
  | _ => false

/-- Whether a command ends a layer. -/
def ends : DrawCommand α → Bool
  | .endLayer => true
  | _ => false

/-- The commands between the first beginning of a layer and the next end, if there is one. -/
def layer? (p : Picture α) (id : LayerId) : Option (List (DrawCommand α)) :=
  match p.dropWhile (!starts id ·) with
  | [] => none
  | _ :: rest => if rest.any ends then some (rest.takeWhile (!ends ·)) else none

/-- The first bounding box that is given for a layer. -/
def layerBounds? (p : Picture α) (id : LayerId) : Option (Bounds α) :=
  p.findSome? fun
    | .startLayer other bounds => if other = id then bounds else none
    | _ => none

/-- The shapes of a layer, in order. -/
def shapes (p : Picture α) (id : LayerId) : List (Shape α) :=
  ((p.layer? id).getD []).filterMap fun
    | .shape s => some s
    | _ => none

/-- The pastes of a layer, in order. -/
def pastes (p : Picture α) (id : LayerId) : List (Paste α) :=
  ((p.layer? id).getD []).filterMap fun
    | .paste q => some q
    | _ => none

end Picture

end Photoplot
