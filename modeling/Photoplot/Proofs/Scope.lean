import Photoplot.GraphicsState
import Photoplot.Proofs.Refinement

/-!
# What a Program is Limited to

The operands of transforms that a program sets and the names that it defines can be read off its
nodes. While it is run, the graphics state has no others: the transform is made of operands of the
program, and an id that stands for something is one that the program defines.

## Main definitions

* `Node.commandsOf`, `Node.definitionsOf`: the commands and the definitions of a program.
* `Scope`: the operands and names that a program is limited to.
* `GraphicsState.Within`: the graphics state is within a scope.
-/

namespace Photoplot

variable {α : Type}

/-! ### What is in a program -/

namespace Node

mutual

/-- The commands of a node, in order. -/
def commands : Node α → List (Command α)
  | .command c => [c]
  | .block _ body | .stepRepeat _ body => commandsOf body

/-- The commands of nodes, in order. -/
def commandsOf : List (Node α) → List (Command α)
  | [] => []
  | node :: rest => node.commands ++ commandsOf rest

end

mutual

/-- The ids that a node defines, in order. The id of a block comes before those of its body. -/
def definitions : Node α → List ApertureId
  | .command (.defineAperture d) => [d.id]
  | .command _ => []
  | .block id body => id :: definitionsOf body
  | .stepRepeat _ body => definitionsOf body

/-- The ids that nodes define, in order. -/
def definitionsOf : List (Node α) → List ApertureId
  | [] => []
  | node :: rest => node.definitions ++ definitionsOf rest

end

end Node

/-- The operands of transforms and the names of apertures that a program is limited to. -/
structure Scope (α : Type) where
  rotations : α → Prop
  scales : α → Prop
  ids : ApertureId → Prop

/-- The scope without limits. -/
def Scope.all : Scope α := ⟨fun _ => True, fun _ => True, fun _ => True⟩

/-- A program that keeps to a scope. -/
structure Scope.Admits (scope : Scope α) (nodes : List (Node α)) : Prop where
  rotations : ∀ x, Command.rotation x ∈ Node.commandsOf nodes → scope.rotations x
  scales : ∀ x, Command.scale x ∈ Node.commandsOf nodes → scope.scales x
  ids : ∀ id ∈ Node.definitionsOf nodes, scope.ids id

/-- Everything is within the scope without limits. -/
theorem Scope.admits_all (nodes : List (Node α)) : Scope.all.Admits nodes :=
  ⟨fun _ _ => trivial, fun _ _ => trivial, fun _ _ => trivial⟩

/-- A scope that admits a program admits its first node. -/
theorem Scope.Admits.head {scope : Scope α} {node : Node α} {rest : List (Node α)}
    (h : scope.Admits (node :: rest)) : scope.Admits [node] where
  rotations x hx := h.rotations x (by simp_all [Node.commandsOf])
  scales x hx := h.scales x (by simp_all [Node.commandsOf])
  ids id hid := h.ids id (by simp_all [Node.definitionsOf])

/-- A scope that admits a program admits the nodes after the first. -/
theorem Scope.Admits.tail {scope : Scope α} {node : Node α} {rest : List (Node α)}
    (h : scope.Admits (node :: rest)) : scope.Admits rest where
  rotations x hx := h.rotations x (by simp_all [Node.commandsOf])
  scales x hx := h.scales x (by simp_all [Node.commandsOf])
  ids id hid := h.ids id (by simp_all [Node.definitionsOf])

/-- A scope that admits a block admits its id and its body. -/
theorem Scope.Admits.block {scope : Scope α} {id : ApertureId} {body : List (Node α)}
    (h : scope.Admits [.block id body]) : scope.ids id ∧ scope.Admits body where
  left := h.ids id (by simp [Node.definitionsOf, Node.definitions])
  right :=
    { rotations := fun x hx => h.rotations x (by simpa [Node.commandsOf, Node.commands] using hx)
      scales := fun x hx => h.scales x (by simpa [Node.commandsOf, Node.commands] using hx)
      ids := fun id hid => h.ids id (by simp [Node.definitionsOf, Node.definitions, hid]) }

/-- A scope that admits a step-and-repeat admits its body. -/
theorem Scope.Admits.stepRepeat {scope : Scope α} {grid : Grid α} {body : List (Node α)}
    (h : scope.Admits [.stepRepeat grid body]) : scope.Admits body where
  rotations x hx := h.rotations x (by simpa [Node.commandsOf, Node.commands] using hx)
  scales x hx := h.scales x (by simpa [Node.commandsOf, Node.commands] using hx)
  ids id hid := h.ids id (by simpa [Node.definitionsOf, Node.definitions] using hid)

/-! ### The graphics state within a scope -/

/-- The transform and the definitions of a state are within a scope. -/
structure GraphicsState.Within (scope : Scope α) (s : GraphicsState α) : Prop where
  rotation : scope.rotations s.transform.rotation
  scale : scope.scales s.transform.scale
  apertures (id : ApertureId) (d : ApertureDefinition α) :
    s.apertures[id]? = some d → scope.ids d.id
  blocks (id : ApertureId) (b : Block α) : s.blocks[id]? = some b → scope.ids b.id

namespace GraphicsState

variable {scope : Scope α}

/-- An id that resolves is in scope. -/
theorem Within.resolve {s : GraphicsState α} (h : s.Within scope) {id : ApertureId}
    {resolved : Resolved α} (hresolve : s.resolve id = .ok resolved) : scope.ids resolved.id := by
  unfold GraphicsState.resolve at hresolve
  split at hresolve
  · rename_i d hd
    obtain rfl := Except.ok.inj hresolve
    exact h.apertures id d hd
  · split at hresolve
    · rename_i b hb
      obtain rfl := Except.ok.inj hresolve
      exact h.blocks id b hb
    · cases hresolve

/-- The id of the selected aperture is in scope if it resolves. -/
theorem Within.current {s : GraphicsState α} (h : s.Within scope) {resolved : Resolved α}
    (hcurrent : s.current = .ok resolved) : scope.ids resolved.id := by
  unfold GraphicsState.current at hcurrent
  split at hcurrent
  · cases hcurrent
  · exact h.resolve hcurrent

/-- A block whose id is in scope may be defined. -/
theorem Within.defineBlock {s : GraphicsState α} (h : s.Within scope) {b : Block α}
    (hid : scope.ids b.id) : (s.defineBlock b).Within scope where
  rotation := h.rotation
  scale := h.scale
  apertures id d hd := by
    simp only [GraphicsState.defineBlock, Std.TreeMap.getElem?_erase] at hd
    split at hd
    · cases hd
    · exact h.apertures id d hd
  blocks id other hb := by
    simp only [GraphicsState.defineBlock, Std.TreeMap.getElem?_insert] at hb
    split at hb
    · obtain rfl := Option.some.inj hb
      exact hid
    · exact h.blocks id other hb

/-! ### What definitions do -/

/-- The macro that an aperture is made of, if any, is defined. -/
def HasMacro (s : GraphicsState α) (d : ApertureDefinition α) : Prop :=
  ∀ name parameters, d.template = .macroCall name parameters → name ∈ s.macros

/-- The state in which an aperture has been defined. -/
def withAperture (d : ApertureDefinition α) (s : GraphicsState α) : GraphicsState α :=
  { s with
    blocks := s.blocks.erase d.id
    apertures := s.apertures.insert d.id d
    snapshots := s.snapshots.insert d.id s.attributes.aperture }

/-- **An aperture is defined**, or its macro is missing and nothing changes. -/
theorem defineAperture_cases (d : ApertureDefinition α) (s : GraphicsState α) :
    (s.HasMacro d ∧ defineAperture d s = ⟨.ok (), s.withAperture d, []⟩) ∨
      ∃ name parameters, d.template = .macroCall name parameters ∧ name ∉ s.macros ∧
        defineAperture d s = ⟨.error (.macroNotDefined name), s, []⟩ := by
  rw [defineAperture, Action.get_bind]
  cases htemplate : d.template with
  | macroCall name parameters =>
      dsimp only
      by_cases hmacro : s.macros.contains name
      · rw [if_pos hmacro]
        refine .inl ⟨fun name' parameters' hcall => ?_, rfl⟩
        obtain ⟨rfl, -⟩ := Template.macroCall.inj (htemplate.symm.trans hcall)
        exact hmacro
      · rw [if_neg hmacro]
        exact .inr ⟨name, parameters, rfl, hmacro, rfl⟩
  | circle | rectangle | obround | polygon | unsupported =>
      refine .inl ⟨fun name parameters hcall => ?_, rfl⟩
      rw [htemplate] at hcall
      cases hcall

/-! ### What definitions and coordinates keep -/

/-- Setting the format keeps what does not depend on the format. -/
theorem keeps_setFormat {P : GraphicsState α → Prop} {f : CoordinateFormat}
    (h : ∀ s : GraphicsState α, P s → P { s with format := some f }) :
    Action.Keeps P (setFormat f) := by
  refine Action.Keeps.bind Action.Keeps.get fun s => ?_
  split
  · exact Action.Keeps.fail _
  · exact Action.Keeps.modify h

/-- Defining an aperture keeps what its new entries keep. -/
theorem keeps_defineAperture {P : GraphicsState α → Prop} {d : ApertureDefinition α}
    (h : ∀ (s : GraphicsState α) snapshots, P s → P { s with
      blocks := s.blocks.erase d.id
      apertures := s.apertures.insert d.id d
      snapshots }) : Action.Keeps P (defineAperture d) := by
  refine Action.Keeps.bind Action.Keeps.get fun s => ?_
  have hmodify := Action.Keeps.modify fun s hs => h s (s.snapshots.insert d.id
    s.attributes.aperture) hs
  split
  · dsimp only
    split
    · exact hmodify
    · exact Action.Keeps.bind (Action.Keeps.fail _) fun _ => hmodify
  · exact hmodify

/-- Reading coordinates keeps what does not depend on the pending coordinates. -/
theorem keeps_load [Scalar α] {P : GraphicsState α → Prop}
    (h : ∀ (s : GraphicsState α) pending formatInUse, P s → P { s with pending, formatInUse })
    (c : Coordinates) : Action.Keeps P (load c) := by
  refine Action.Keeps.bind (Action.Keeps.modify fun s hs => h s _ _ hs) fun _ => ?_
  split
  · exact Action.Keeps.pure _
  refine Action.Keeps.bind Action.Keeps.get fun s => ?_
  split
  · exact Action.Keeps.fail _
  refine Action.Keeps.bind (Action.Keeps.ofExcept _) fun pending => ?_
  exact Action.Keeps.modify fun s hs => h s _ _ hs

/-- Setting the format stays within the scope. -/
theorem within_setFormat (f : CoordinateFormat) :
    Action.Keeps (Within scope) (setFormat f : Action (GraphicsState α) Unit) :=
  keeps_setFormat fun _ h => ⟨h.rotation, h.scale, h.apertures, h.blocks⟩

/-- Defining an aperture whose id is in scope stays within the scope. -/
theorem within_defineAperture {d : ApertureDefinition α} (hid : scope.ids d.id) :
    Action.Keeps (Within scope) (defineAperture d) := by
  refine keeps_defineAperture fun s _ h =>
    ⟨h.rotation, h.scale, fun id other hd => ?_, fun id b hb => ?_⟩
  · simp only [Std.TreeMap.getElem?_insert] at hd
    split at hd
    · obtain rfl := Option.some.inj hd
      exact hid
    · exact h.apertures id other hd
  · simp only [Std.TreeMap.getElem?_erase] at hb
    split at hb
    · cases hb
    · exact h.blocks id b hb

/-- Reading coordinates stays within the scope. -/
theorem within_load [Scalar α] (c : Coordinates) :
    Action.Keeps (Within scope) (load c : Action (GraphicsState α) Unit) :=
  keeps_load (fun _ _ _ h => ⟨h.rotation, h.scale, h.apertures, h.blocks⟩) c

end GraphicsState

end Photoplot
