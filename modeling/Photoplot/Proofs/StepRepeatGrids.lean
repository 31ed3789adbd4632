import Photoplot.Proofs.Inlining
import Photoplot.Proofs.StackDiscipline

/-!
# Grids of Copies

The body of a step-and-repeat is drawn into a layer of its own, which collects its items. At the end
the layer is taken off the stack and its items are copied into the layer below, once for each place
of the grid. The layer that collected them is dropped and never gets into the library.

## Conventions

* **Order.** The copies come row by row, and within a row column by column (`copies`). Each of them
  has the items of the body in their order.
* **Completion.** What is said holds however the body ends. The node ends as its body does.
* **Nesting.** A step-and-repeat may stand anywhere in the body of another one, as long as the nodes
  before it let the run go on. Only here the numbers are real, because the sum of two offsets is
  added to a point in one step or in two.

## Main definitions

* `copies`: the items on a grid.
* `Item.SameKind`: what does not change when an item is moved.
* `Layer.Repeats`: a layer with the copies added to it.
* `Machine.collecting`: the machine at the beginning of the body.

## Main results

* `mem_sources_copies`: copies paste what the items paste, if there are any copies.
* `Machine.visit_stepRepeat`: one step-and-repeat, with any body.
* `Machine.stepRepeat_places_grid`: step-and-repeats on their own and inside of one another.
-/

namespace Photoplot

variable {α σ : Type}

/-! ### Copies -/

/-- Two items of the same kind: shapes of one polarity with geometries of one kind, or pastes of one
polarity from one source. -/
inductive Item.SameKind : Item α → Item α → Prop
  | shape {s s' : Shape α} (hpolarity : s'.polarity = s.polarity)
      (hkind : s'.geometry.kind = s.geometry.kind) : SameKind (.shape s) (.shape s')
  | paste {p p' : Paste α} (hpolarity : p'.polarity = p.polarity) (hsource : p'.source = p.source) :
      SameKind (.paste p) (.paste p')

section Copies

variable [Scalar α]

/-- The items on a grid: for each row and each column, all items moved there. -/
def copies (grid : Grid α) (items : List (Item α)) : List (Item α) :=
  (List.range grid.rows).flatMap fun (j : Nat) =>
    (List.range grid.columns).flatMap fun (i : Nat) =>
      items.map (.translate ⟨grid.dx * (i : α), grid.dy * (j : α)⟩)

/-- The copies on a grid are those for each of its offsets. -/
theorem copies_eq_flatMap_offsets (grid : Grid α) (items : List (Item α)) :
    copies grid items =
      (Composer.offsets grid).flatMap fun offset => items.map (.translate offset) := by
  simp only [copies, Composer.offsets, List.flatMap_assoc, List.flatMap_map]

/-- Moving an item does not change its kind. -/
theorem Item.sameKind_translate (offset : Point α) (item : Item α) :
    item.SameKind (item.translate offset) := by
  cases item with
  | shape s => exact .shape rfl (s.geometry.kind_translate offset)
  | paste p => exact .paste rfl rfl

/-- A moved item pastes what the item pastes. -/
theorem Item.source?_translate (offset : Point α) (item : Item α) :
    (item.translate offset).source? = item.source? := by
  cases item <;> rfl

/-- **Copies** paste what the items paste, unless there are none. -/
theorem mem_sources_copies (grid : Grid α) (items : List (Item α)) (source : LayerId) :
    source ∈ Item.sources (copies grid items) ↔
      grid.columns ≠ 0 ∧ grid.rows ≠ 0 ∧ source ∈ Item.sources items := by
  simp only [Item.sources, List.mem_filterMap, copies, List.mem_flatMap, List.mem_range,
    List.mem_map]
  constructor
  · rintro ⟨_, ⟨j, hj, i, hi, item, hitem, rfl⟩, hsource⟩
    rw [Item.source?_translate] at hsource
    exact ⟨Nat.ne_zero_of_lt hi, Nat.ne_zero_of_lt hj, item, hitem, hsource⟩
  · rintro ⟨hcolumns, hrows, item, hitem, hsource⟩
    refine ⟨_, ⟨0, Nat.pos_of_ne_zero hrows, 0, Nat.pos_of_ne_zero hcolumns, item, hitem, rfl⟩, ?_⟩
    rw [Item.source?_translate, hsource]

/-- A layer with the copies of some items added to it, which also depends on what they paste if
there are any copies. -/
structure Layer.Repeats (grid : Grid α) (drawn : List (Item α)) (l l' : Layer α) : Prop where
  id : l'.id = l.id
  items : l'.items.toList = l.items.toList ++ copies grid drawn
  dependsOn (source : LayerId) : source ∈ l'.dependsOn ↔ source ∈ l.dependsOn ∨
    grid.columns ≠ 0 ∧ grid.rows ≠ 0 ∧ source ∈ Item.sources drawn

/-- Appending a body at each offset of a grid repeats its items on the grid. -/
theorem Layer.repeats_foldl_appendTranslated (grid : Grid α) (l body : Layer α) :
    l.Repeats grid body.items.toList ((Composer.offsets grid).foldl
      (fun l offset => l.appendTranslated body offset) l) := by
  have hitems := Composer.items_foldl_appendTranslated l body (Composer.offsets grid)
  rw [← copies_eq_flatMap_offsets] at hitems
  refine ⟨Composer.id_foldl_appendTranslated _ _ _, hitems, fun source => ?_⟩
  rw [Layer.mem_dependsOn, hitems, Item.sources_append, List.mem_append, mem_sources_copies,
    Layer.mem_dependsOn]

end Copies

/-! ### Copies of copies -/

/-- An item that is moved twice is moved by the sum. -/
theorem Item.translate_translate (item : Item ℝ) (v w : Point ℝ) :
    (item.translate v).translate w = item.translate (v + w) := by
  cases item with
  | shape s => exact congrArg Item.shape (s.translate_translate v w)
  | paste p => exact congrArg (fun center => Item.paste { p with center }) (p.center.add_assoc v w)

/-- Copies that are moved are at the sums of the offsets. -/
theorem map_translate_copies (grid : Grid ℝ) (items : List (Item ℝ)) (outer : Point ℝ) :
    (copies grid items).map (Item.translate outer) =
      (Composer.offsets grid).flatMap fun inner => items.map (Item.translate (inner + outer)) := by
  rw [copies_eq_flatMap_offsets, List.map_flatMap]
  refine List.flatMap_congr fun inner _ => ?_
  rw [List.map_map]
  exact List.map_congr_left fun item _ => item.translate_translate inner outer

/-! ### Nodes -/

/-- The end of a step-and-repeat appends the open layer to the one below it, once for each offset.
-/
theorem Composer.endStepRepeat_eq [Scalar α] {c : Composer α} {parent : Layer α}
    {rest : List (Layer α)} (h : c.below = parent :: rest) (r : StepRepeat α) :
    endStepRepeat r c =
      ⟨.ok (), { c with
        top := (offsets r.grid).foldl (fun l offset => l.appendTranslated c.top offset) parent
        below := rest }, []⟩ := by
  rw [endStepRepeat, Action.get_bind, h]
  rfl

namespace Machine

variable [Scalar α] [Legible α]

/-- The machine at the beginning of the body of a step-and-repeat, which is drawn into a new
layer. -/
def collecting (m : Machine α (Composer α)) : Machine α (Composer α) :=
  { m with
    receiver := { m.receiver with
      top := .empty (.stepRepeat (m.receiver.stepRepeats + 1))
      below := m.receiver.top :: m.receiver.below
      stepRepeats := m.receiver.stepRepeats + 1 } }

/-- **A step-and-repeat** ends as its body does, and adds the copies of what its body has drawn. The
rest of the composer, the library too, is as the body left it. -/
theorem visit_stepRepeat (options : Options) (grid : Grid α) (body : List (Node α))
    (m : Machine α (Composer α)) :
    let ran := visitAll Composer.receiver options body m.collecting
    let visited := visit Composer.receiver options (.stepRepeat grid body) m
    visited.result = ran.result ∧
      m.receiver.top.Repeats grid ran.state.receiver.top.items.toList visited.state.receiver.top ∧
      visited.state.receiver =
        { ran.state.receiver with
          top := visited.state.receiver.top, below := m.receiver.below } := by
  intro ran visited
  have hbelow : ran.state.receiver.below = m.receiver.top :: m.receiver.below := by
    cases above_visitAll (.base (.refl m.collecting.receiver)) options body with
    | base hgrows => exact hgrows.below
  have hclosing := Composer.endStepRepeat_eq hbelow ⟨grid, body⟩
  have hvisited : visited.result = (enclosed (visitAll Composer.receiver options body)
      (Composer.receiver.endStepRepeat · ⟨grid, body⟩) m.collecting).result ∧
      visited.state = (enclosed (visitAll Composer.receiver options body)
        (Composer.receiver.endStepRepeat · ⟨grid, body⟩) m.collecting).state := by
    show (visit Composer.receiver options (.stepRepeat grid body) m).result = _ ∧
      (visit Composer.receiver options (.stepRepeat grid body) m).state = _
    rw [visit]
    exact Action.bind_eq_of_ok rfl
  obtain ⟨hstate, hresult⟩ := enclosed_eq (visitAll Composer.receiver options body)
    (Composer.receiver.endStepRepeat · ⟨grid, body⟩) m.collecting
  have hreceiver : visited.state.receiver =
      (Composer.endStepRepeat ⟨grid, body⟩ ran.state.receiver).state := by
    rw [hvisited.2, hstate]
    rfl
  rw [hclosing] at hreceiver
  refine ⟨?_, ?_, ?_⟩
  · rw [hvisited.1, hresult]
    show ran.result.bind (fun flow =>
      (Composer.endStepRepeat ⟨grid, body⟩ ran.state.receiver).result.map fun _ => flow) = _
    rw [hclosing]
    cases ran.result <;> rfl
  · rw [hreceiver]
    exact Layer.repeats_foldl_appendTranslated _ _ _
  · rw [hreceiver]

/-! ### Nodes around a step-and-repeat -/

/-- Whatever follows a node only adds to the top layer. -/
theorem grows_proceed (options : Options) (node : Node α) (rest : List (Node α))
    (result : Except Error Flow) (m : Machine α (Composer α)) :
    m.receiver.Grows (proceed Composer.receiver options node rest result m).state.receiver := by
  have hrest : Action.Keeps (fun m' => m.receiver.Grows m'.receiver)
      (visitAll Composer.receiver options rest) := by
    intro m' h
    cases above_visitAll (.base h) options rest with
    | base hgrows => exact hgrows
  rcases result with e | flow | flow
  · refine Action.Keeps.bind (fun m' h => ?_) (fun _ => hrest) m (.refl _)
    rw [skip]
    split
    · exact h
    · cases options.errorMode <;> exact h
  · exact hrest m (.refl _)
  · exact .refl _

/-- The items that a body leaves when a step-and-repeat stands in it: those of the nodes before,
the copies, and others after them. -/
theorem exists_items_visitAll (options : Options) (grid : Grid α) {before : List (Node α)}
    (body after : List (Node α)) {m : Machine α (Composer α)}
    (h : (visitAll Composer.receiver options before m).result = .ok .continue) :
    let reached := (visitAll Composer.receiver options before m).state
    let ran := (visitAll Composer.receiver options body reached.collecting).state
    let nodes := before ++ .stepRepeat grid body :: after
    ∃ last, (visitAll Composer.receiver options nodes m).state.receiver.top.items.toList =
      reached.receiver.top.items.toList ++ copies grid ran.receiver.top.items.toList ++ last := by
  intro reached ran nodes
  obtain ⟨-, hrepeats, -⟩ := visit_stepRepeat options grid body reached
  obtain ⟨last, hlast⟩ := (grows_proceed options (.stepRepeat grid body) after
    (visit Composer.receiver options (.stepRepeat grid body) reached).result
    (visit Composer.receiver options (.stepRepeat grid body) reached).state).items
  refine ⟨last, ?_⟩
  rw [(visitAll_append h _).2, (visitAll_cons _ _ _ _ _).2, ← hlast, hrepeats.items]

omit [Scalar α] [Legible α] in
/-- **Grids of copies.** The body of a step-and-repeat is drawn into a new layer, in front of an
unchanged library. At the end the layer below gets the copies of its items, row by row, and depends
on what they paste. The node ends as its body does and leaves everything else as the body left it.
No copy changes the kind of an item. Copies of copies are at the sums of the offsets. -/
theorem stepRepeat_places_grid (options : Options) :
    (∀ (α : Type) [Scalar α] [Legible α] (grid : Grid α) (body : List (Node α))
        (m : Machine α (Composer α)),
      let ran := visitAll Composer.receiver options body m.collecting
      let visited := visit Composer.receiver options (.stepRepeat grid body) m
      m.collecting.receiver.top.items = #[] ∧
        m.collecting.receiver.toLibrary = m.receiver.toLibrary ∧
        visited.result = ran.result ∧
        m.receiver.top.Repeats grid ran.state.receiver.top.items.toList
          visited.state.receiver.top ∧
        visited.state.receiver =
          { ran.state.receiver with
            top := visited.state.receiver.top, below := m.receiver.below }) ∧
    (∀ (α : Type) [Scalar α] (offset : Point α) (item : Item α),
      item.SameKind (item.translate offset)) ∧
    (∀ [Legible ℝ] (outer inner : Grid ℝ) (before body after : List (Node ℝ))
        (m : Machine ℝ (Composer ℝ)),
      let reached := visitAll Composer.receiver options before m.collecting
      let ran := visitAll Composer.receiver options body reached.state.collecting
      let nested := Node.stepRepeat outer (before ++ .stepRepeat inner body :: after)
      let visited := visit Composer.receiver options nested m
      reached.result = .ok .continue →
        ∃ last : List (Item ℝ), visited.state.receiver.top.items.toList =
          m.receiver.top.items.toList ++ (Composer.offsets outer).flatMap fun o =>
            reached.state.receiver.top.items.toList.map (.translate o) ++
              ((Composer.offsets inner).flatMap fun i =>
                ran.state.receiver.top.items.toList.map (.translate (i + o))) ++
              last.map (.translate o)) := by
  refine ⟨fun α _ _ grid body m => ?_, fun α _ => Item.sameKind_translate, ?_⟩
  · exact ⟨rfl, rfl, visit_stepRepeat options grid body m⟩
  · intro _ outer inner before body after m reached ran nested visited hreached
    obtain ⟨last, hitems⟩ := exists_items_visitAll options inner body after hreached
    obtain ⟨-, hrepeats, -⟩ :=
      visit_stepRepeat options outer (before ++ .stepRepeat inner body :: after) m
    refine ⟨last, ?_⟩
    rw [hrepeats.items, hitems, copies_eq_flatMap_offsets]
    simp only [List.map_append, map_translate_copies]
    rfl

/-- Defines a disc and selects it. -/
noncomputable def selectedDisc : List (Node ℝ) :=
  [.command (.defineAperture ⟨.ofNumber 10, .circle ⟨1, none⟩⟩),
    .command (.selectAperture (.ofNumber 10))]

/-- A column of three flashes of the disc, which is repeated at its side. -/
theorem stepRepeat_places_grid_columns : letI : Legible ℝ := .ofDigits
    let m : Machine ℝ (Composer ℝ) := .initial .initial
    let flash : Node ℝ := .command (.flash ⟨none, none, none, none⟩)
    let reached := visitAll Composer.receiver {} selectedDisc m.collecting
    let ran := visitAll Composer.receiver {} [flash] reached.state.collecting
    let column : Grid ℝ := ⟨1, 3, 0, 5⟩
    let twice : Grid ℝ := ⟨2, 1, 10, 0⟩
    let nested := Node.stepRepeat twice (selectedDisc ++ [.stepRepeat column [flash]])
    reached.result = .ok .continue ∧
      ∃ last : List (Item ℝ),
        (visit Composer.receiver {} nested m).state.receiver.top.items.toList =
          m.receiver.top.items.toList ++ (Composer.offsets twice).flatMap fun o =>
            reached.state.receiver.top.items.toList.map (.translate o) ++
              ((Composer.offsets column).flatMap fun i =>
                ran.state.receiver.top.items.toList.map (.translate (i + o))) ++
              last.map (.translate o) := by
  obtain ⟨-, -, hnested⟩ := stepRepeat_places_grid {}
  exact ⟨rfl, @hnested .ofDigits ⟨2, 1, 10, 0⟩ ⟨1, 3, 0, 5⟩ selectedDisc
    [.command (.flash ⟨none, none, none, none⟩)] [] (.initial .initial) rfl⟩

end Machine

end Photoplot
