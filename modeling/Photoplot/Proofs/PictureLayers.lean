import Photoplot.Compile
import Photoplot.Proofs.LayerOrder
import Photoplot.Proofs.Refinement

/-!
# The Layers of a Picture

A picture tells as much about its layers as the layers themselves: what it gives for a layer are
the items of that layer, and it has exactly the layers that the main layer reaches.

## Main results

* `Picture.layer?_eq_some_iff`: the commands that a picture gives for a layer.
* `result_compile`, `compile_eq_ok_iff`: a program is compiled to the picture of the layers that its
  run leaves.
* `run_or_isFault_of_compile`: why a program is not compiled.
-/

namespace Photoplot

variable {α : Type} [Scalar α]

namespace Picture

/-! ### Groups -/

omit [Scalar α] in
/-- An item starts no layer. -/
theorem not_starts_of_ofItem (id : LayerId) (item : Item α) :
    starts id (DrawCommand.ofItem item) = false := by
  cases item <;> rfl

omit [Scalar α] in
/-- An item ends no layer. -/
theorem not_ends_of_ofItem (item : Item α) : ends (DrawCommand.ofItem item) = false := by
  cases item <;> rfl

/-- A picture gives the commands of its first group, if they are asked for. -/
theorem layer?_group_self (id : LayerId) (items : List (Item α)) (box : Bounds α)
    (rest : Picture α) :
    layer? (group id items box ++ rest) id = some (items.map .ofItem) := by
  have hstart : ∀ b : Option (Bounds α), starts id (.startLayer id b) = true := fun _ =>
    beq_self_eq_true id
  have hitems : ∀ command ∈ items.map DrawCommand.ofItem, (!ends command) = true := by
    intro command hcommand
    obtain ⟨item, -, rfl⟩ := List.mem_map.mp hcommand
    rw [not_ends_of_ofItem]
    rfl
  have htake : (items.map DrawCommand.ofItem ++ DrawCommand.endLayer :: rest).takeWhile
      (!ends ·) = items.map .ofItem := by
    rw [List.takeWhile_append_of_pos hitems]
    simp [ends]
  have hany : (items.map DrawCommand.ofItem ++ DrawCommand.endLayer :: rest).any ends = true := by
    simp [ends]
  simp only [layer?, group, List.cons_append, List.append_assoc, List.nil_append,
    List.dropWhile_cons, hstart, Bool.not_true, Bool.false_eq_true, if_false]
  rw [if_pos hany, htake]

/-- What a picture gives for other layers is not in its first group. -/
theorem layer?_group_of_ne {id other : LayerId} (h : other ≠ id) (items : List (Item α))
    (box : Bounds α) (rest : Picture α) :
    layer? (group id items box ++ rest) other = layer? rest other := by
  have hskip : (group id items box ++ rest).dropWhile (!starts other ·) =
      rest.dropWhile (!starts other ·) := by
    refine List.dropWhile_append_of_pos fun command hcommand => ?_
    rcases List.mem_cons.mp hcommand with rfl | hcommand
    · simpa [starts] using h.symm
    rcases List.mem_append.mp hcommand with hcommand | hcommand
    · obtain ⟨item, -, rfl⟩ := List.mem_map.mp hcommand
      rw [not_starts_of_ofItem]
      rfl
    · obtain rfl := List.mem_singleton.mp hcommand
      rfl
  rw [layer?, hskip, layer?]

/-- What the groups of layers are made of: the group of the first one and those of the others. -/
theorem exists_of_groups_cons {layers : LayerTable α} {id : LayerId} {rest : List LayerId}
    {boxes : Std.TreeMap LayerId (Bounds α)} {picture : Picture α}
    (h : groups layers boxes (id :: rest) = .ok picture) :
    ∃ layer others, layers[id]? = some layer ∧
      groups layers (boxes.insert id (itemBounds boxes layer.items.toList)) rest = .ok others ∧
      picture = group id layer.items.toList (itemBounds boxes layer.items.toList) ++ others := by
  rw [groups] at h
  split at h
  · cases h
  rename_i layer hlayer
  cases hothers : groups layers (boxes.insert id (itemBounds boxes layer.items.toList)) rest with
  | error e =>
      simp only [hothers] at h
      cases h
  | ok others =>
      simp only [hothers] at h
      exact ⟨layer, others, hlayer, hothers, (Except.ok.inj h).symm⟩

/-- Each layer of the order is read back as its items, and no other layer is. -/
theorem layer?_groups {layers : LayerTable α} {ids : List LayerId}
    {boxes : Std.TreeMap LayerId (Bounds α)} {picture : Picture α}
    (h : groups layers boxes ids = .ok picture) (id : LayerId) :
    picture.layer? id =
      if id ∈ ids then layers[id]?.map fun layer => layer.items.toList.map .ofItem else none := by
  induction ids generalizing boxes picture with
  | nil =>
      obtain rfl := Except.ok.inj h
      rfl
  | cons first rest ih =>
      obtain ⟨layer, others, hlayer, hothers, rfl⟩ := exists_of_groups_cons h
      by_cases hid : id = first
      · rw [hid, layer?_group_self, if_pos List.mem_cons_self, hlayer]
        rfl
      · rw [layer?_group_of_ne hid, ih hothers]
        simp [hid]

/-- A picture is made of the groups of its layers in an order. -/
theorem exists_isOrder_of_ofLayers {layers : LayerTable α} {picture : Picture α}
    (h : ofLayers layers = .ok picture) :
    ∃ found, layers.IsOrder found ∧ groups layers ∅ found = .ok picture := by
  cases horder : layers.order with
  | error e =>
      rw [ofLayers, horder] at h
      cases h
  | ok found =>
      rw [ofLayers, horder] at h
      exact ⟨found, LayerTable.isOrder_of_order horder, h⟩

/-- **The layers of a picture.** It gives the items of the layers that the main layer reaches, and
nothing for other layers. -/
theorem layer?_eq_some_iff {layers : LayerTable α} {picture : Picture α}
    (h : ofLayers layers = .ok picture) {id : LayerId} {commands : List (DrawCommand α)} :
    picture.layer? id = some commands ↔
      layers.Reaches .main id ∧
        ∃ layer, layers[id]? = some layer ∧ commands = layer.items.toList.map .ofItem := by
  obtain ⟨found, hisOrder, hgroups⟩ := exists_isOrder_of_ofLayers h
  rw [layer?_groups hgroups, ← hisOrder.mem_iff_reaches id]
  by_cases hid : id ∈ found
  · rw [if_pos hid, Option.map_eq_some_iff]
    simp only [hid, true_and]
    exact exists_congr fun layer => and_congr_right fun _ => eq_comm
  · simp [hid]

/-! ### Pictures that can be made -/

/-- There is a picture of every order. -/
theorem exists_groups {layers : LayerTable α} {ids : List LayerId}
    (boxes : Std.TreeMap LayerId (Bounds α))
    (h : ∀ id ∈ ids, id ∈ layers) : ∃ picture, groups layers boxes ids = .ok picture := by
  induction ids generalizing boxes with
  | nil => exact ⟨[], rfl⟩
  | cons id rest ih =>
      obtain ⟨hid, hrest⟩ := List.forall_mem_cons.mp h
      obtain ⟨layer, hlayer⟩ := LayerTable.mem_iff_lookup.mp hid
      obtain ⟨others, hothers⟩ := ih (boxes.insert id (itemBounds boxes layer.items.toList)) hrest
      refine ⟨group id layer.items.toList (itemBounds boxes layer.items.toList) ++ others, ?_⟩
      rw [groups, hlayer]
      simp only [hothers]
      rfl

/-- Layers that have an order make a picture. -/
theorem exists_ofLayers {layers : LayerTable α} {found : List LayerId}
    (h : layers.order = .ok found) :
    ∃ picture, ofLayers layers = .ok picture := by
  obtain ⟨picture, hpicture⟩ := exists_groups ∅ (LayerTable.isOrder_of_order h).known
  exact ⟨picture, by rw [ofLayers, h]; exact hpicture⟩

end Picture

/-! ### Programs -/

/-- A composer finishes with the picture of its layers. -/
theorem result_finish (c : Composer α) :
    (Composer.finish c).result = Picture.ofLayers c.allLayers := by
  rw [Composer.finish, Action.get_bind]
  split
  · rfl
  · rfl

variable [Legible α]

/-- The composer after a program. -/
def composed (options : Options) (nodes : List (Node α)) : Composer α :=
  ((Machine.run Composer.receiver options nodes).run (.initial .initial)).state.receiver

/-- **The result of a program** is the error of its run, or else what its layers make. -/
theorem result_compile (options : Options) (nodes : List (Node α)) :
    ((compile options nodes).run ()).result =
      ((Machine.run Composer.receiver options nodes).run (.initial .initial)).result.bind fun _ =>
        (Picture.ofLayers (composed options nodes).allLayers).map fun picture =>
          (picture, ((Machine.run Composer.receiver options nodes).run
            (.initial .initial)).state.diagnostics) := by
  have hinside : ((compile options nodes).run ()).result =
      ((Machine.run Composer.receiver options nodes >>= fun _ =>
        Action.get >>= fun m => Action.inside m.receiver Composer.finish >>= fun picture =>
          pure (picture, m.diagnostics)) (.initial .initial)).result := rfl
  rw [hinside, composed]
  unfold Action.run
  cases hrun : (Machine.run Composer.receiver options nodes (.initial .initial)).result with
  | error e =>
      rw [(Action.bind_eq_of_error hrun).1]
      rfl
  | ok _ =>
      rw [(Action.bind_eq_of_ok hrun).1, Action.get_bind]
      generalize (Machine.run Composer.receiver options nodes (.initial .initial)).state = m
      have hfinish : (Action.inside m.receiver Composer.finish m).result =
          Picture.ofLayers m.receiver.allLayers := result_finish m.receiver
      cases hlayers : Picture.ofLayers m.receiver.allLayers with
      | error e =>
          rw [(Action.bind_eq_of_error (hfinish.trans hlayers)).1]
          rfl
      | ok made =>
          rw [(Action.bind_eq_of_ok (hfinish.trans hlayers)).1]
          rfl

/-- A program is compiled when it is run to its end and the layers that the run leaves make a
picture. -/
theorem compile_eq_ok_iff {options : Options} {nodes : List (Node α)} {picture : Picture α}
    {diagnostics : List Diagnostic} :
    ((compile options nodes).run ()).result = .ok (picture, diagnostics) ↔
      ((Machine.run Composer.receiver options nodes).run (.initial .initial)).result = .ok () ∧
        Picture.ofLayers (composed options nodes).allLayers = .ok picture ∧
        ((Machine.run Composer.receiver options nodes).run
          (.initial .initial)).state.diagnostics = diagnostics := by
  rw [result_compile]
  cases ((Machine.run Composer.receiver options nodes).run (.initial .initial)).result with
  | error e => simp [Except.bind]
  | ok _ =>
      cases Picture.ofLayers (composed options nodes).allLayers with
      | error e => simp [Except.bind, Except.map]
      | ok made => simp [Except.bind, Except.map]

/-- A program is not compiled when its run fails or the layers that the run leaves have a fault. -/
theorem run_or_isFault_of_compile {options : Options} {nodes : List (Node α)} {e : Error}
    (h : ((compile options nodes).run ()).result = .error e) :
    ((Machine.run Composer.receiver options nodes).run (.initial .initial)).result = .error e ∨
      (composed options nodes).allLayers.IsFault [.main] e := by
  rw [result_compile] at h
  cases hrun : ((Machine.run Composer.receiver options nodes).run (.initial .initial)).result with
  | error e' =>
      rw [hrun] at h
      exact .inl (congrArg Except.error (Except.error.inj h))
  | ok _ =>
      rw [hrun] at h
      cases horder : (composed options nodes).allLayers.order with
      | ok found =>
          obtain ⟨picture, hpicture⟩ := Picture.exists_ofLayers horder
          simp [hpicture, Except.bind, Except.map] at h
      | error e' =>
          simp only [Picture.ofLayers, horder, Except.bind, Except.map] at h
          obtain rfl := Except.error.inj h
          exact .inr (LayerTable.isFault_of_order horder)

end Photoplot
