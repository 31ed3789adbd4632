import Photoplot.Action
import Photoplot.Layer.Order
import Photoplot.Transform

/-!
# Libraries of Layers

The layers that are complete are kept in a library. Besides the layers that were defined it holds
their **variants**: a flash under a geometric transform pastes a variant of the layer, with the
shapes transformed and the pastes turned into pastes of variants of their sources.

A variant is built once for each layer and transform and named after both, so the record of the
variants that exist is a list of pairs. When a layer is defined again, its record is dropped and
the variant is built anew on its next use.

A library changes by **revisions** and keeps the history of them.

## Main definitions

* `Item.transform`: an item of a variant.
* `Revision`, `Library`: the layers, the record of variants and the history.
* `Library.revise`: what a revision does.
* `Library.builds`: the number of variants built so far.
* `Library.variant`: the id of a layer under a transform.
-/

namespace Photoplot

/-- An item of a layer in the variant of that layer. -/
def Item.transform {α : Type} [Scalar α] [Legible α] (t : Transform α) : Item α → Item α
  | .shape s => .shape (t.applyShape s)
  | .paste p =>
    .paste { p with source := p.source.variant t.tag, center := t.applyPoint p.center }

/-- A variant pastes the variants of what its base pastes. -/
theorem Item.sources_map_transform {α : Type} [Scalar α] [Legible α] (t : Transform α)
    (items : List (Item α)) :
    Item.sources (items.map (.transform t)) = (Item.sources items).map (·.variant t.tag) := by
  induction items with
  | nil => rfl
  | cons item rest ih =>
      cases item with
      | shape s => exact ih
      | paste p => exact congrArg _ ih

/-- A change of a library. -/
inductive Revision (α : Type) where
  /-- A layer is complete. It takes the place of an older one of its name. -/
  | define (l : Layer α)
  /-- A layer is defined without geometry, so that there is none of this name. -/
  | remove (id : LayerId)
  /-- The variant of a layer under a transform is complete. It was begun when so many revisions
  had been made. -/
  | build (base : LayerId) (t : Transform α) (begun : Nat) (items : List (Item α))

/-- The layers that are complete. -/
structure Library (α : Type) where
  layers : LayerTable α
  /-- The variants that are recorded, by their base and the tag of the transform. -/
  variants : List (LayerId × String)
  /-- The revisions so far, the latest one first. -/
  history : List (Revision α)

namespace Revision

variable {α : Type}

/-- Whether a variant is built. -/
def isBuild : Revision α → Bool
  | build .. => true
  | define _ | remove _ => false

variable [Scalar α] [Legible α]

/-- The name of the layer that is changed. -/
def target : Revision α → LayerId
  | define l => l.id
  | remove id => id
  | build base t _ _ => base.variant t.tag

end Revision

namespace Library

variable {α : Type}

/-- The library without layers. -/
def empty : Library α where
  layers := ∅
  variants := []
  history := []

/-- The number of variants built so far. -/
def builds (lib : Library α) : Nat := lib.history.countP Revision.isBuild

/-- The record without the variants of a layer. -/
def dropVariants (lib : Library α) (base : LayerId) : List (LayerId × String) :=
  lib.variants.filter (·.1 != base)

/-- The length of the longest name that a layer is known or pasted by. -/
def longestName (layers : LayerTable α) : Nat :=
  layers.foldl (fun longest id l =>
    (Item.sources l.items.toList).foldl (fun n source => max n source.name.length)
      (max longest id.name.length)) 0

/-- A bound on how deep variants are nested while one is built. The layers being built are
distinct, and each of their names is the name of a layer followed by tags, at most as many as
the names along the way have room for. It bounds the nesting for every library, whatever its layers
are called and whatever is recorded (`build_eq_of_nestingBound_le`). -/
def nestingBound (layers : LayerTable α) : Nat :=
  (layers.size + 1) * (layers.size * (longestName layers + 1) + 2)

variable [Scalar α] [Legible α]

/-- Makes a revision. A layer that is defined or removed loses the record of its variants. -/
def revise (r : Revision α) (lib : Library α) : Library α :=
  match r with
  | .define l =>
    { layers := lib.layers.insert l.id l
      variants := lib.dropVariants l.id
      history := r :: lib.history }
  | .remove id =>
    { layers := lib.layers.erase id
      variants := lib.dropVariants id
      history := r :: lib.history }
  | .build base t _ items =>
    { layers := lib.layers.insert (base.variant t.tag) (.ofItems (base.variant t.tag) items)
      variants := (base, t.tag) :: lib.variants
      history := r :: lib.history }

/-- The item of a variant, after the variant that it pastes has been built by `nested`. -/
def buildItem (t : Transform α) (nested : LayerId → Action (Library α) LayerId) :
    Item α → Action (Library α) (Item α)
  | .shape s => pure (.shape (t.applyShape s))
  | .paste p => do
    let source ← nested p.source
    pure (.paste { p with source, center := t.applyPoint p.center })

/-- Builds the variant of a layer under a transform, and before it those of the layers that it
pastes; the layers in `path` are being built. There is room for so many nested variants, and nothing
is ever short of `nestingBound`. -/
def build (t : Transform α) : Nat → List LayerId → LayerId → Action (Library α) LayerId
  | 0, _, base => Action.fail (.cyclicLayer base)
  | depth + 1, path, base => do
    let lib ← Action.get
    if lib.variants.contains (base, t.tag) then pure (base.variant t.tag)
    else if path.contains base then Action.fail (.cyclicLayer base)
    else
      match lib.layers[base]? with
      | none => Action.fail (.layerNotFound base)
      | some layer => do
        let items ← layer.items.toList.mapM (buildItem t (build t depth (base :: path)))
        Action.modify (revise (.build base t lib.history.length items))
        pure (base.variant t.tag)

/-- The id of a layer under a transform, for which its variant is built on the first use. -/
def variant (t : Transform α) (base : LayerId) : Action (Library α) LayerId := do
  let lib ← Action.get
  if !lib.layers.contains base then Action.fail (.layerNotFound base)
  else if t.isIdentity then pure base
  else build t (nestingBound lib.layers) [] base

/-- There is no variant of a layer that is not there. -/
theorem variant_of_missing (t : Transform α) {base : LayerId} {lib : Library α}
    (h : lib.layers[base]? = none) :
    variant t base lib = Action.fail (.layerNotFound base) lib := by
  show (if !lib.layers.contains base then Action.fail (.layerNotFound base) else _) lib = _
  rw [Std.TreeMap.contains_eq_isSome_getElem?, h]
  rfl

end Library

end Photoplot
