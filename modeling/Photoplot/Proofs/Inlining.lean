import Mathlib.Data.Real.Basic
import Photoplot.Proofs.ComposerInlines
import Photoplot.Proofs.PictureLayers

/-!
# Pictures are Inlined Programs

The picture of a program has a layer for each aperture, block and variant, and pastes between them.
Followed to the end, the pastes of the main layer draw the same as the program does when every
flash draws the shapes of its aperture on the spot: the same shapes, in the same order, with the
same polarities on the way.

The program has to define its apertures by their numbers and each of them once, and tags have to
tell apart the transforms that can be made of its operands. Coordinates are real numbers.

## Identity convention

Under an **identity transform** the aperture itself is pasted. Its shapes are then drawn as they are
written, so inlining must not apply such a transform either. To apply it would move no point, but a
rectangle that is inside out would be written anew (`not_flattens_applyShape`), and full turns would
be added to the angles of arcs. For other shapes there is no difference (`reshape_eq_applyShape`).

## Main results

* `LayerTable.exists_order_of_depicts`: what depicts something can be drawn, by induction on what is
  depicted.
* `mirrors_composed`: after a run the composer mirrors the inliner.
* `exists_compile_of_run`: every run that ends well makes a picture.
* `compile_refines_inline`: what a picture draws.
-/

namespace Photoplot

open Relation

/-! ### What is depicted can be drawn -/

namespace LayerTable

variable {α : Type} [Scalar α] {layers : LayerTable α} {items : List (Item α)}
  {placed : List (PlacedShape α)}

/-- Items that depict something come to paste only layers that are there and on no circle. The
induction is on what is depicted, which is finite. -/
theorem Depicts.sound_sources (h : layers.Depicts items placed) {source id : LayerId}
    (hsource : source ∈ Item.sources items) (hreaches : layers.Reaches source id) :
    id ∈ layers ∧ ¬ layers.OnCircle id := by
  induction h generalizing source id with
  | nil => simp [Item.sources] at hsource
  | shape _ ih => exact ih hsource hreaches
  | @paste p layer rest inner placed hlayer _ _ ihinner ih =>
      rcases List.mem_cons.mp hsource with rfl | hrest
      · -- one step down from the pasted layer is what this layer pastes itself
        have hdown {next : LayerId} (hpastes : layers.Pastes p.source next)
            (hreaches : layers.Reaches next id) : id ∈ layers ∧ ¬ layers.OnCircle id := by
          obtain ⟨layer', hlayer', hnext⟩ := hpastes
          obtain rfl : layer = layer' := Option.some.inj (hlayer.symm.trans hlayer')
          exact ihinner hnext hreaches
        rcases ReflTransGen.cases_head hreaches with rfl | ⟨next, hpastes, hreaches⟩
        · refine ⟨LayerTable.mem_iff_lookup.mpr ⟨layer, hlayer⟩, fun hcircle => ?_⟩
          obtain ⟨next, hpastes, hback⟩ := TransGen.head'_iff.mp hcircle
          exact (hdown hpastes hback).2 hcircle
        · exact hdown hpastes hreaches
      · exact ih hrest hreaches

/-- If the items of the main layer depict something, there is an order of the layers. -/
theorem exists_order_of_depicts {main : Layer α} (hmain : layers[LayerId.main]? = some main)
    (hdepicts : layers.Depicts main.items.toList placed) : ∃ found, layers.order = .ok found := by
  refine exists_order fun id hreaches => ?_
  have hown : layers.Depicts [.paste ⟨.main, .origin, .dark⟩]
      (placed.map (.pasted .dark .origin) ++ []) := .paste hmain hdepicts .nil
  exact hown.sound_sources List.mem_cons_self hreaches

end LayerTable

namespace Picture

variable {α : Type} [Scalar α] {layers : LayerTable α} {picture : Picture α}

/-- **Items of a picture** draw what they depict, if what they paste is in the picture. -/
theorem flattens_of_depicts (h : ofLayers layers = .ok picture) {items : List (Item α)}
    {placed : List (PlacedShape α)} (hdepicts : layers.Depicts items placed)
    (hreaches : ∀ source ∈ Item.sources items, layers.Reaches .main source) :
    picture.Flattens (items.map .ofItem) placed := by
  induction hdepicts with
  | nil => exact .nil
  | shape _ ih => exact .shape (ih hreaches)
  | @paste p layer rest inner placed hlayer _ _ ihinner ih =>
      obtain ⟨hsource, hrest⟩ := List.forall_mem_cons.mp hreaches
      have hcommands := (layer?_eq_some_iff h).mpr ⟨hsource, layer, hlayer, rfl⟩
      refine .paste hcommands (ihinner fun nested hnested => ?_) (ih hrest)
      exact hsource.tail ⟨layer, hlayer, hnested⟩

end Picture

/-! ### Programs -/

/-- What a program is limited to that defines apertures by their numbers: the transform has operands
of the program, or those that it has in the beginning. -/
def Scope.ofProgram {α : Type} [Scalar α] (nodes : List (Node α)) : Scope α where
  rotations x := x = 0 ∨ .rotation x ∈ Node.commandsOf nodes
  scales x := x = 1 ∨ .scale x ∈ Node.commandsOf nodes
  ids := ApertureId.IsNumbered

section

variable [Legible ℝ] {options : Options} {nodes : List (Node ℝ)}

/-- The composer and the inliner before a program. -/
theorem alike_initial (hnumbered : ∀ id ∈ Node.definitionsOf nodes, id.IsNumbered)
    (hnodup : (Node.definitionsOf nodes).Nodup) :
    Machine.Alike (.ofProgram nodes)
      (Composer.Mirrors (.ofProgram nodes) [] (Node.definitionsOf nodes))
      (.initial .initial) (.initial .initial) where
  state := rfl
  flashTarget := rfl
  route := rfl
  diagnostics := rfl
  within :=
    { rotation := .inl rfl
      scale := .inl rfl
      apertures := fun id d h => by simp [Machine.initial, GraphicsState.initial] at h
      blocks := fun id b h => by simp [Machine.initial, GraphicsState.initial] at h }
  receiver := Composer.mirrors_initial hnumbered hnodup

/-- **The run of a program** that is compiled. The composer and the inliner end alike. -/
theorem mirrors_composed (hnumbered : ∀ id ∈ Node.definitionsOf nodes, id.IsNumbered)
    (hnodup : (Node.definitionsOf nodes).Nodup) (htags : (Scope.ofProgram nodes).TellsApart)
    (hrun : ((Machine.run Composer.receiver options nodes).run
      (.initial .initial)).result = .ok ()) :
    ∃ i, Composer.Mirrors (.ofProgram nodes) [] [] (composed options nodes) i ∧
      ((inline Transform.reshape options nodes).run ()).result = .ok i.image := by
  have hrefines := Machine.refines_run (Composer.refines_inliner htags fun _ h => h)
    (fun _ h => h) options
    ⟨fun _ => .inr, fun _ => .inr, hnumbered⟩ _ _ (alike_initial hnumbered hnodup)
  rcases hrefines with ⟨e, herror, -⟩ | ⟨hresult, hstep⟩
  · exact absurd (herror.symm.trans hrun) nofun
  have hrun' : (Machine.run Composer.receiver options nodes (.initial .initial)).result = .ok () :=
    hrun
  rw [hrun'] at hresult hstep
  refine ⟨_, hstep.receiver, ?_⟩
  have hinside : ((inline Transform.reshape options nodes).run ()).result =
      ((Machine.run (Inliner.receiver Transform.reshape) options nodes >>= fun _ =>
        Action.get >>= fun m => pure m.receiver.image) (.initial .initial)).result := rfl
  rw [hinside, (Action.bind_eq_of_ok hresult.symm).1]
  rfl

/-- No layer of the library is named like the main layer. -/
theorem Library.Sound.main_unused {scope : Scope ℝ} {lib : Library ℝ} (h : lib.Sound scope) :
    lib.layers[LayerId.main]? = none := by
  cases hlayer : lib.layers[LayerId.main]? with
  | none => rfl
  | some layer =>
      rcases h.names .main layer hlayer with ⟨id, hid, hname⟩ | ⟨base, tag, -, hname⟩
      · exact absurd hname.symm hid.ne_main
      · exact absurd hname.symm (LayerId.variant_ne_main base tag)

/-- The main layer of a composed program has its name. -/
theorem main_id_composed : (composed options nodes).main.id = .main := by
  have hkeeps : Receiver.Keeps (Composer.Tied fun _ : Library ℝ => True) Composer.receiver :=
    Composer.keeps_receiver (fun _ _ => id) (fun _ _ => id) fun _ _ _ => id
  exact (Machine.keeps_run hkeeps options nodes _ (Composer.tied_initial trivial)).main_id

/-- After the last body the main layer is on top. Among all layers it depicts the image. -/
theorem Composer.Mirrors.depicts_main {scope : Scope ℝ} {c : Composer ℝ} {i : Inliner ℝ}
    (h : c.Mirrors scope [] [] i) (hmain : c.main.id = .main) :
    c.allLayers[LayerId.main]? = some c.main ∧
      c.allLayers.Depicts c.main.items.toList i.image := by
  have hlookup (id : LayerId) :
      c.allLayers[id]? = if LayerId.main = id then some c.main else c.layers[id]? := by
    rw [allLayers, hmain, LayerTable.lookup_insert]
  have hincludes : c.allLayers.Includes c.layers := by
    intro id layer hlayer
    rw [hlookup, if_neg, hlayer]
    rintro rfl
    rw [h.library.sound.main_unused] at hlayer
    cases hlayer
  have hbelow : c.below = [] := by
    cases h.names with
    | cons _ hrest => exact List.forall₂_nil_right_iff.mp hrest
  have hbelow' : i.below = [] := by
    have hstack := h.stack
    rw [hbelow] at hstack
    cases hstack with
    | cons _ hrest => exact List.forall₂_nil_left_iff.mp hrest
  refine ⟨by rw [hlookup, if_pos rfl], ?_⟩
  have himage : i.image = i.top := by rw [Inliner.image, hbelow']; rfl
  rw [main_of_below_nil hbelow, himage]
  exact h.depicts_top.extend hincludes

/-- **Every run that ends well makes a picture.** -/
theorem exists_compile_of_run (hnumbered : ∀ id ∈ Node.definitionsOf nodes, id.IsNumbered)
    (hnodup : (Node.definitionsOf nodes).Nodup) (htags : (Scope.ofProgram nodes).TellsApart)
    (hrun : ((Machine.run Composer.receiver options nodes).run
      (.initial .initial)).result = .ok ()) :
    ∃ picture diagnostics,
      ((compile options nodes).run ()).result = .ok (picture, diagnostics) := by
  obtain ⟨i, hmirrors, -⟩ := mirrors_composed hnumbered hnodup htags hrun
  obtain ⟨hmain, hdepicts⟩ := hmirrors.depicts_main main_id_composed
  obtain ⟨found, horder⟩ := LayerTable.exists_order_of_depicts hmain hdepicts
  obtain ⟨picture, hpicture⟩ := Picture.exists_ofLayers horder
  exact ⟨picture, _, compile_eq_ok_iff.mpr ⟨hrun, hpicture, rfl⟩⟩

/-- What a picture draws is what inlining draws. -/
theorem flattens_of_compile (hnumbered : ∀ id ∈ Node.definitionsOf nodes, id.IsNumbered)
    (hnodup : (Node.definitionsOf nodes).Nodup) (htags : (Scope.ofProgram nodes).TellsApart)
    {picture : Picture ℝ} {diagnostics : List Diagnostic}
    (hcompile : ((compile options nodes).run ()).result = .ok (picture, diagnostics)) :
    ∃ commands placed, picture.layer? .main = some commands ∧
      ((inline Transform.reshape options nodes).run ()).result = .ok placed ∧
      picture.Flattens commands placed := by
  obtain ⟨hrun, hpicture, -⟩ := compile_eq_ok_iff.mp hcompile
  obtain ⟨i, hmirrors, hinline⟩ := mirrors_composed hnumbered hnodup htags hrun
  obtain ⟨hmain, hdepicts⟩ := hmirrors.depicts_main main_id_composed
  have hcommands := (Picture.layer?_eq_some_iff hpicture).mpr ⟨.refl, _, hmain, rfl⟩
  refine ⟨_, i.image, hcommands, hinline, ?_⟩
  exact Picture.flattens_of_depicts hpicture hdepicts fun source hsource =>
    .single ⟨_, hmain, hsource⟩

omit [Legible ℝ] in
/-- To skip an identity transform is to apply it, unless the shape is a rectangle that is inside out
or an arc under full turns. -/
theorem reshape_eq_applyShape {t : Transform ℝ} {s : Shape ℝ}
    (h : t.isIdentity → t.Settles s.geometry) : t.reshape s = t.applyShape s := by
  by_cases hidentity : t.isIdentity
  · rw [Transform.reshape, if_pos hidentity, Transform.applyShape,
      Transform.applyGeometry_of_isIdentity hidentity (h hidentity)]
  · rw [Transform.reshape, if_neg hidentity]

end

/-! ### Runs step by step -/

namespace Machine

variable {α σ : Type} [Scalar α] {r : Receiver α σ} {options : Options} {m m' : Machine α σ}

/-- A node that does not halt is followed by the rest. -/
theorem result_visitAll_cons {node : Node α} {rest : List (Node α)}
    (h : (visit r options node m).result = .ok .continue) :
    (visitAll r options (node :: rest) m).result =
      (visitAll r options rest (visit r options node m).state).result := by
  have hattempt : ((visit r options node).attempt m).result = .ok (.ok .continue) :=
    congrArg Except.ok h
  rw [visitAll, (Action.bind_eq_of_ok hattempt).1]
  rfl

/-- A command that succeeds stops the run or lets it go on. -/
theorem result_visit_command {c : Command α} (h : (perform r c m).result = .ok ()) :
    (visit r options (.command c) m).result = .ok (stops options c) := by
  rw [visit, (Action.bind_eq_of_ok h).1]
  rfl

/-- A run whose nodes succeed does, if the receiver takes the end of the file. -/
theorem result_run {nodes : List (Node α)} (flow : Flow)
    (h : (visitAll r options nodes m).result = .ok flow)
    (hend : ∀ s c, (r.endOfFile s c).result = .ok ()) :
    (run r options nodes m).result = .ok () := by
  have hattempt : ((visitAll r options nodes).attempt m).result = .ok (.ok flow) :=
    congrArg Except.ok h
  have hclosed (m : Machine α σ) : ((tell r.endOfFile).attempt m).result = .ok (.ok ()) :=
    congrArg Except.ok (hend m.state m.receiver)
  rw [run, (Action.bind_eq_of_ok hattempt).1, (Action.bind_eq_of_ok (hclosed _)).1]
  rfl

/-- A flash outside of regions, after its coordinates have been read. -/
theorem result_flash {c : Coordinates} {resolved : Resolved α} {target : FlashTarget α}
    (hload : onState (GraphicsState.load c) m = ⟨.ok (), m', []⟩)
    (hregion : m'.state.inRegion = false) (hcurrent : m'.state.current = .ok resolved)
    (htarget : m'.flashTarget = some target)
    (hflash : (r.flash m'.state resolved.id target m'.state.target m'.receiver).result = .ok ()) :
    (flash r c m).result = .ok () := by
  have hloaded : (onState (GraphicsState.load c) m).result = .ok () := by rw [hload]
  have hresolved : (Action.ofExcept m'.state.current m').result = .ok resolved := hcurrent
  have htold : (tell (fun s => r.flash s resolved.id target s.target) m').result = .ok () :=
    hflash
  rw [flash, (Action.bind_eq_of_ok hloaded).1, hload, Action.gets_bind, hregion]
  simp only [Bool.false_eq_true, if_false]
  rw [(Action.bind_eq_of_ok hresolved).1]
  show (((Action.gets fun m : Machine α σ => m.flashTarget) >>= _) m').result = _
  rw [Action.gets_bind, htarget]
  simp only
  rw [(Action.bind_eq_of_ok htold).1]
  rfl

end Machine

/-! ### Numbers by their digits -/

/-- Numbers by the digits of their integral parts. -/
@[reducible]
noncomputable def Legible.ofDigits : Legible ℝ where
  text a := toString ⌊a⌋₊
  legible a c hc := by
    have hdigits : c ∈ Nat.toDigits 10 ⌊a⌋₊ := by simpa using hc
    have hdigit : c.isDigit := Nat.isDigit_of_mem_toDigits (by decide) (by decide) hdigits
    exact .inl (by simp [Char.isAlphanum, hdigit])

/-- Numbers may be written by their digits. -/
theorem text_ofDigits (n : ℕ) : Legible.ofDigits.text n = toString n := by
  show toString ⌊(n : ℝ)⌋₊ = toString n
  rw [Nat.floor_natCast]

/-- Natural numbers with the same digits are the same. -/
theorem toString_nat_inj {n k : ℕ} (h : toString n = toString k) : n = k := by
  have hdigits : Nat.toDigits 10 n = Nat.toDigits 10 k := by simpa using congrArg String.toList h
  have hvalue := congrArg (Nat.ofDigitChars 10 · 0) hdigits
  simpa [Nat.ofDigitChars_ten_toDigits] using hvalue

/-- Digits tell natural operands apart. -/
theorem tellsApart_ofDigits {scope : Scope ℝ}
    (hrotations : ∀ x, scope.rotations x → ∃ n : ℕ, x = n)
    (hscales : ∀ x, scope.scales x → ∃ n : ℕ, x = n) :
    letI : Legible ℝ := .ofDigits
    scope.TellsApart := by
  have hnatural (p : ℝ → Prop) (hp : ∀ x, p x → ∃ n : ℕ, x = n) (x y : ℝ) (hx : p x) (hy : p y)
      (h : Legible.ofDigits.text x = Legible.ofDigits.text y) : x = y := by
    obtain ⟨n, rfl⟩ := hp x hx
    obtain ⟨k, rfl⟩ := hp y hy
    rw [text_ofDigits, text_ofDigits] at h
    rw [toString_nat_inj h]
  exact @Scope.tellsApart_of_texts ℝ .ofDigits scope (hnatural _ hrotations) (hnatural _ hscales)

/-! ### Programs and pictures -/

section

variable [Legible ℝ] {options : Options} {nodes : List (Node ℝ)}

/-- **Pictures are inlined programs.** For every program that is compiled, the main layer draws,
when all pastes are followed, exactly what inlining draws, in the same order and with the same
polarities on the way. An identity transform is not applied when inlining, which makes a difference
only for rectangles that are inside out and for arcs under full turns. -/
theorem compile_refines_inline (hnumbered : ∀ id ∈ Node.definitionsOf nodes, id.IsNumbered)
    (hnodup : (Node.definitionsOf nodes).Nodup) (htags : (Scope.ofProgram nodes).TellsApart)
    {picture : Picture ℝ} {diagnostics : List Diagnostic}
    (hcompile : ((compile options nodes).run ()).result = .ok (picture, diagnostics)) :
    (∃ commands placed, picture.layer? .main = some commands ∧
      ((inline Transform.reshape options nodes).run ()).result = .ok placed ∧
      ∀ other, picture.Flattens commands other ↔ other = placed) ∧
    ∀ (t : Transform ℝ) (s : Shape ℝ), (t.isIdentity → t.Settles s.geometry) →
      t.reshape s = t.applyShape s := by
  obtain ⟨commands, placed, hcommands, hinline, hflattens⟩ :=
    flattens_of_compile hnumbered hnodup htags hcompile
  refine ⟨⟨commands, placed, hcommands, hinline, fun other => ⟨fun h => h.unique hflattens, ?_⟩⟩,
    fun _ _ => reshape_eq_applyShape⟩
  rintro rfl
  exact hflattens

end

/-! ### A rectangle that is inside out -/

/-- A rectangle of negative width, which is flashed without a transform. -/
noncomputable def flashedRectangle : List (Node ℝ) :=
  [.command (.defineAperture ⟨.ofNumber 10, .rectangle ⟨-1, 2, none⟩⟩),
    .command (.selectAperture (.ofNumber 10)),
    .command (.flash ⟨none, none, none, none⟩)]

/-- The transform in the beginning leaves everything as it is. -/
theorem isIdentity_initial : (Transform.initial : Transform ℝ).isIdentity := by
  refine Transform.isIdentity_iff.mpr ⟨rfl, ⟨0, ?_⟩, Nat.cast_one⟩
  rw [Int.cast_zero, zero_mul]
  exact Nat.cast_zero

/-- Inlined, the rectangle is drawn once. -/
theorem inline_flashedRectangle (reshape : Transform ℝ → Shape ℝ → Shape ℝ) :
    ((inline reshape {} flashedRectangle).run ()).result =
      .ok [⟨[.dark], (reshape .initial (centeredRectangle (-1) 2)).translate .origin⟩] := rfl

section

variable [Legible ℝ]

/-- The layer itself is pasted under an identity transform. -/
theorem Composer.result_flash {c : Composer ℝ} {s : GraphicsState ℝ} {id : ApertureId}
    {center : Point ℝ} (hopen : c.stack.any (·.id == .ofAperture id) = false)
    (hlayer : c.layers.contains (LayerId.ofAperture id)) (hidentity : s.transform.isIdentity) :
    (flash s id center c).result = .ok () := by
  have hvariant : (Library.variant s.transform (.ofAperture id) c.toLibrary).result =
      .ok (.ofAperture id) := by
    rw [Library.variant, Action.get_bind, hlayer, hidentity]
    rfl
  exact (flash_of_variant hopen hvariant).1

/-- A flash of a rectangle is composed without an error. -/
theorem run_flashedRectangle :
    ((Machine.run Composer.receiver {} flashedRectangle).run (.initial .initial)).result =
      .ok () := by
  refine Machine.result_run .continue ?_ fun _ _ => rfl
  rw [flashedRectangle, Machine.result_visitAll_cons rfl, Machine.result_visitAll_cons rfl,
    Machine.result_visitAll_cons]
  · rw [Machine.visitAll]
    rfl
  · refine Machine.result_visit_command (Machine.result_flash rfl rfl rfl rfl ?_)
    exact Composer.result_flash rfl rfl isIdentity_initial

end

/-- If the identity transform is applied, the rectangle is written anew and not inside out any more.
But this is not what the picture draws. -/
theorem not_flattens_applyShape : letI : Legible ℝ := .ofDigits
    (∀ id ∈ Node.definitionsOf flashedRectangle, id.IsNumbered) ∧
      (Node.definitionsOf flashedRectangle).Nodup ∧
      (Scope.ofProgram flashedRectangle).TellsApart ∧
      ∃ picture diagnostics commands placed,
        ((compile {} flashedRectangle).run ()).result = .ok (picture, diagnostics) ∧
          picture.layer? .main = some commands ∧
          ((inline Transform.applyShape {} flashedRectangle).run ()).result = .ok placed ∧
          ¬ picture.Flattens commands placed := by
  let _ : Legible ℝ := .ofDigits
  have hnumbered : ∀ id ∈ Node.definitionsOf flashedRectangle, id.IsNumbered :=
    fun id hid => ⟨10, List.mem_singleton.mp hid⟩
  have hnodup : (Node.definitionsOf flashedRectangle).Nodup := List.nodup_singleton _
  have htags : (Scope.ofProgram flashedRectangle).TellsApart := by
    refine tellsApart_ofDigits ?_ ?_
    · rintro x (rfl | hx)
      · exact ⟨0, rfl⟩
      · simp [flashedRectangle, Node.commandsOf, Node.commands] at hx
    · rintro x (rfl | hx)
      · exact ⟨1, rfl⟩
      · simp [flashedRectangle, Node.commandsOf, Node.commands] at hx
  obtain ⟨picture, diagnostics, hcompile⟩ :=
    exists_compile_of_run hnumbered hnodup htags run_flashedRectangle
  obtain ⟨commands, placed, hcommands, hinline, hflattens⟩ :=
    flattens_of_compile hnumbered hnodup htags hcompile
  refine ⟨hnumbered, hnodup, htags, picture, diagnostics, commands, _, hcompile, hcommands,
    inline_flashedRectangle _, fun h => ?_⟩
  have hplaced := h.unique hflattens
  rw [inline_flashedRectangle, Transform.reshape, if_pos isIdentity_initial] at hinline
  obtain rfl := Except.ok.inj hinline
  have hgeometry : (Transform.applyGeometry .initial (centeredRectangle (-1) 2).geometry).translate
      .origin = (centeredRectangle (-1 : ℝ) 2).geometry.translate .origin :=
    congrArg (fun x : PlacedShape ℝ => x.shape.geometry) (List.cons.inj hplaced).1
  generalize hg : Transform.applyGeometry .initial (centeredRectangle (-1 : ℝ) 2).geometry = g
    at hgeometry
  cases g with
  | rectangle origin width height =>
      obtain ⟨-, rfl, -⟩ := Geometry.rectangle.inj hgeometry
      exact absurd (Transform.nonneg_of_applyGeometry_rectangle _ hg).1 (by norm_num)
  | circle | polygon | line | arc => cases hgeometry

/-! ### Copies of a mirrored rectangle -/

/-- A step-and-repeat of a rectangle, which is mirrored, turned and scaled. -/
noncomputable def mirroredCopies : List (Node ℝ) :=
  [.command (.defineAperture ⟨.ofNumber 10, .rectangle ⟨1, 2, none⟩⟩),
    .stepRepeat ⟨2, 1, 3, 0⟩
      [.command (.selectAperture (.ofNumber 10)),
        .command (.mirroring .x),
        .command (.rotation 90),
        .command (.scale 2),
        .command (.flash ⟨none, none, none, none⟩)]]

/-- Both copies are drawn from one variant. -/
theorem compile_refines_inline_mirroredCopies : letI : Legible ℝ := .ofDigits
    (∀ id ∈ Node.definitionsOf mirroredCopies, id.IsNumbered) ∧
      (Node.definitionsOf mirroredCopies).Nodup ∧
      (Scope.ofProgram mirroredCopies).TellsApart ∧
      ∃ picture diagnostics commands placed,
        ((compile {} mirroredCopies).run ()).result = .ok (picture, diagnostics) ∧
          picture.layer? .main = some commands ∧
          ((inline Transform.reshape {} mirroredCopies).run ()).result = .ok placed ∧
          ∀ other, picture.Flattens commands other ↔ other = placed := by
  let _ : Legible ℝ := .ofDigits
  have hnumbered : ∀ id ∈ Node.definitionsOf mirroredCopies, id.IsNumbered :=
    fun id hid => ⟨10, List.mem_singleton.mp hid⟩
  have hnodup : (Node.definitionsOf mirroredCopies).Nodup := List.nodup_singleton _
  have htags : (Scope.ofProgram mirroredCopies).TellsApart := by
    refine tellsApart_ofDigits ?_ ?_
    · rintro x (rfl | hx)
      · exact ⟨0, rfl⟩
      · obtain rfl : x = 90 := by
          simpa [mirroredCopies, Node.commandsOf, Node.commands] using hx
        exact ⟨90, rfl⟩
    · rintro x (rfl | hx)
      · exact ⟨1, rfl⟩
      · obtain rfl : x = 2 := by
          simpa [mirroredCopies, Node.commandsOf, Node.commands] using hx
        exact ⟨2, rfl⟩
  have hrun : ((Machine.run Composer.receiver {} mirroredCopies).run
      (.initial .initial)).result = .ok () := rfl
  obtain ⟨picture, diagnostics, hcompile⟩ := exists_compile_of_run hnumbered hnodup htags hrun
  obtain ⟨⟨commands, placed, hcommands, hinline, hflattens⟩, -⟩ :=
    compile_refines_inline hnumbered hnodup htags hcompile
  exact ⟨hnumbered, hnodup, htags, picture, diagnostics, commands, placed, hcompile, hcommands,
    hinline, hflattens⟩

end Photoplot
