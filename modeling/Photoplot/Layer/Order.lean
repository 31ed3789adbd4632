import Photoplot.Error
import Photoplot.Layer

/-!
# The Order of Layers

A layer can be drawn only when the layers that it pastes have been drawn. The order is found
depth first from the main layer: every layer comes right after the layers that it depends on,
which are visited by their names.

A layer that is met again while its own dependencies are being visited depends on itself. No
layer is visited twice at a time, so there is always one layer less left to go down to.

## Main definitions

* `LayerTable`: layers by their ids.
* `LayerTable.order`: the layers that the main layer needs, in order, the main layer last.
-/

namespace Photoplot

/-- Layers by their ids. -/
abbrev LayerTable (α : Type) := Std.TreeMap LayerId (Layer α)

/-- Fewer names are left when one more of them is on the path. -/
theorem countP_notMem_cons_lt {ids path : List LayerId} {id : LayerId} (hid : id ∈ ids)
    (hpath : ¬ path.contains id) :
    ids.countP (!(id :: path).contains ·) < ids.countP (!path.contains ·) := by
  obtain ⟨before, after, rfl⟩ := List.append_of_mem hid
  have hmono (ids : List LayerId) :
      ids.countP (!(id :: path).contains ·) ≤ ids.countP (!path.contains ·) := by
    refine List.countP_mono_left fun other _ h => ?_
    simp only [List.contains_cons, Bool.not_or, Bool.and_eq_true] at h
    exact h.2
  have hbefore := hmono before
  have hafter := hmono after
  have hself : (id :: path).contains id := by simp
  simp only [List.countP_append, List.countP_cons, hself, hpath, Bool.not_true, Bool.not_false,
    Bool.false_eq_true, if_true, if_false]
  omega

namespace LayerTable

variable {α : Type}

/-- A layer that is inserted is found under its id, and all others as before. -/
theorem lookup_insert (layers : LayerTable α) (id other : LayerId) (layer : Layer α) :
    (layers.insert id layer)[other]? = if id = other then some layer else layers[other]? := by
  simp only [Std.TreeMap.getElem?_insert, Std.compare_eq_iff_eq]

/-- A layer that is removed is not found any more, and all others are as before. -/
theorem lookup_erase (layers : LayerTable α) (id other : LayerId) :
    (layers.erase id)[other]? = if id = other then none else layers[other]? := by
  simp only [Std.TreeMap.getElem?_erase, Std.compare_eq_iff_eq]

/-- A layer is known if something is found under its id. -/
theorem mem_iff_lookup {layers : LayerTable α} {id : LayerId} :
    id ∈ layers ↔ ∃ layer, layers[id]? = some layer := by
  rw [Std.TreeMap.mem_iff_isSome_getElem?, Option.isSome_iff_exists]

/-- The number of layers that are not in `path`. -/
def outside (layers : LayerTable α) (path : List LayerId) : Nat :=
  layers.keys.countP fun id => !path.contains id

/-- Fewer layers are outside of the path when one more of them is on it. -/
theorem outside_cons_lt {layers : LayerTable α} {path : List LayerId} {id : LayerId}
    {layer : Layer α} (hpath : ¬ path.contains id) (hlayer : layers[id]? = some layer) :
    layers.outside (id :: path) < layers.outside path :=
  countP_notMem_cons_lt (Std.TreeMap.mem_keys.mpr (mem_iff_lookup.mpr ⟨layer, hlayer⟩)) hpath

mutual

/-- Adds a layer, and before it what it depends on, to the layers found so far. The layers in
`path` are being visited. -/
def visit (layers : LayerTable α) (path found : List LayerId) (id : LayerId) :
    Except Error (List LayerId) :=
  if found.contains id then .ok found
  else if path.contains id then .error (.cyclicLayer id)
  else
    match _ : layers[id]? with
    | none => .error (.layerNotFound id)
    | some layer =>
      (visitAll layers (id :: path) found layer.dependsOn.toList).map (· ++ [id])
termination_by (layers.outside path, 0)
decreasing_by
  exact Prod.Lex.left _ _ (outside_cons_lt ‹_› ‹_›)

/-- Adds layers one after the other. -/
def visitAll (layers : LayerTable α) (path found : List LayerId) :
    List LayerId → Except Error (List LayerId)
  | [] => .ok found
  | id :: rest => (visit layers path found id).bind (visitAll layers path · rest)
termination_by ids => (layers.outside path, ids.length + 1)
decreasing_by
  · exact Prod.Lex.right _ (by simp)
  · exact Prod.Lex.right _ (by simp)

end

/-- The layers that the main layer needs, each after those that it depends on. -/
def order (layers : LayerTable α) : Except Error (List LayerId) := visit layers [] [] .main

end LayerTable

end Photoplot
