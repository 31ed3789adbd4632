import Std.Data.TreeMap
import Std.Data.TreeSet

/-!
# Identifiers

Apertures and layers are named by texts. Both kinds of names are ordered like their texts, by
code points, which is the order in which the layers that a layer depends on are visited.

## Main definitions

* `ApertureId`: the name of an aperture or of an aperture block, such as `D10`.
* `LayerId`: the name of a layer. `LayerId.main` is the layer of the image itself, an aperture
  has the layer of its own name, and a transformed layer is named by `LayerId.variant`.
-/

namespace Photoplot

/-- The name of an aperture. -/
structure ApertureId where
  name : String
deriving DecidableEq, Repr

namespace ApertureId

/-- The name of an aperture that is known by its number. -/
def ofNumber (n : Nat) : ApertureId := ⟨"D" ++ toString n⟩

instance : Ord ApertureId := ⟨compareOn ApertureId.name⟩

instance : Std.TransOrd ApertureId :=
  inferInstanceAs (Std.TransCmp (compareOn ApertureId.name))

instance : Std.LawfulEqOrd ApertureId where
  eq_of_compare {a b} h := by
    cases a; cases b
    exact congrArg ApertureId.mk (Std.LawfulEqOrd.eq_of_compare h)

end ApertureId

/-- The name of a layer. -/
structure LayerId where
  name : String
deriving DecidableEq, Repr

namespace LayerId

/-- The layer of the image. -/
def main : LayerId := ⟨"main"⟩

/-- The layer of an aperture. -/
def ofAperture (id : ApertureId) : LayerId := ⟨id.name⟩

/-- The layer into which the body of the `n`-th step-and-repeat is collected. -/
def stepRepeat (n : Nat) : LayerId := ⟨"SR-" ++ toString n⟩

/-- The layer that holds `base` under the transform with a given tag. -/
def variant (base : LayerId) (tag : String) : LayerId := ⟨base.name ++ "[" ++ tag ++ "]"⟩

instance : Ord LayerId := ⟨compareOn LayerId.name⟩

instance : Std.TransOrd LayerId :=
  inferInstanceAs (Std.TransCmp (compareOn LayerId.name))

instance : Std.LawfulEqOrd LayerId where
  eq_of_compare {a b} h := by
    cases a; cases b
    exact congrArg LayerId.mk (Std.LawfulEqOrd.eq_of_compare h)

end LayerId

end Photoplot
