import Photoplot.Proofs.ComposerInvariants
import Photoplot.Proofs.NestedVariants
import Photoplot.Proofs.PictureLayers
import Photoplot.Scalar.Double

/-!
# Where Variants Come From

A variant is built from what its base is at that time. Nothing builds it anew when the base
becomes another layer later on: a definition only drops the record of the variants of the layer
that is defined. What was pasted before stays, and so do the variants of the blocks that paste the
layer and the variants of its variants.

So the question of what a variant shows is asked of the **history** of the library. It has an
answer for every program: the items that the base had when the variant was begun, transformed one
by one. The variant shows its base as it is in the end exactly when these are still the same.

## Time convention

A history has its latest revision first, so the past of a revision is what comes after it in the
list. A variant is complete only after the variants that it pastes, which are built in between.
Its base is taken as it was before all of them (`Built.begun`).

## Main definitions

* `Library.replay`: the library that a history leads to.
* `Library.Chronicled`: a library that its history explains.
* `Library.origin?`: the base and the transform of a variant, and the history at its beginning.

## Main results

* `Library.ensures_build`: building a variant is explained, by induction on the nesting of
  variants.
* `chronicled_composed`: every run of a program leaves a library that its history explains.
* `variantsShowSnapshots_of_compile`, `variantsUpToDate_iff`: what the emitted variants show, and
  when that is their bases as they are in the end.
* `not_variantsUpToDate_redefinition`: a program whose variants are not up to date.
-/

namespace Photoplot

variable {α : Type} [Scalar α] [Legible α]

/-! ### Histories -/

/-- A revision that builds a variant under a given transform. -/
def Revision.BuildsUnder (t : Transform α) (r : Revision α) : Prop :=
  ∃ base begun items, r = .build base t begun items

/-- The layer that a revision brings. -/
def Revision.layer? : Revision α → Option (Layer α)
  | define l => some l
  | remove _ => none
  | build base t _ items => some (.ofItems (base.variant t.tag) items)

namespace Library

/-- The library after the revisions of a history. -/
def replay : List (Revision α) → Library α
  | [] => empty
  | r :: past => (replay past).revise r

/-- A variant was built from what the library was when so many revisions had been made. Since
then only variants under the same transform were built. -/
structure Built (past : List (Revision α)) (base : LayerId) (t : Transform α) (begun : Nat)
    (items : List (Item α)) : Prop where
  begun_le : begun ≤ past.length
  nested : ∀ r ∈ past.take (past.length - begun), r.BuildsUnder t
  snapshot : ∃ layer, (replay (past.drop (past.length - begun))).layers[base]? = some layer ∧
    items = layer.items.toList.map (Item.transform t)

/-- Every variant in a history was built from its base. -/
def AllBuilt : List (Revision α) → Prop
  | [] => True
  | .build base t begun items :: past => Built past base t begun items ∧ AllBuilt past
  | _ :: past => AllBuilt past

/-- A library that is explained by its history. -/
structure Chronicled (lib : Library α) : Prop where
  replayed : lib = replay lib.history
  allBuilt : AllBuilt lib.history

/-- The base and the transform of a variant that is built, and the history when it was begun. -/
def builtFrom? (past : List (Revision α)) :
    Revision α → Option (LayerId × Transform α × List (Revision α))
  | .build base t begun _ => some (base, t, past.drop (past.length - begun))
  | .define _ | .remove _ => none

/-- The **origin** of a layer whose latest revision built it as a variant. -/
def origin? (id : LayerId) :
    List (Revision α) → Option (LayerId × Transform α × List (Revision α))
  | [] => none
  | r :: past => if r.target = id then builtFrom? past r else origin? id past

omit [Scalar α] in
/-- A revision is put at the head of the history. -/
@[simp] theorem history_revise (r : Revision α) (lib : Library α) :
    (lib.revise r).history = r :: lib.history := by
  cases r <;> rfl

/-- The empty library is explained by its empty history. -/
theorem chronicled_empty : (empty : Library α).Chronicled := ⟨rfl, trivial⟩

/-- Definitions are explained by themselves. -/
theorem Chronicled.revise {lib : Library α} (h : lib.Chronicled) {r : Revision α}
    (hr : ∀ base t begun items, r = .build base t begun items →
      Built lib.history base t begun items) : (lib.revise r).Chronicled where
  replayed := by
    rw [history_revise, replay, ← h.replayed]
  allBuilt := by
    rw [history_revise]
    cases r with
    | define l => exact h.allBuilt
    | remove id => exact h.allBuilt
    | build base t begun items => exact ⟨hr base t begun items rfl, h.allBuilt⟩

omit [Scalar α] in
/-- A revision changes the layer of its target alone. -/
theorem lookup_revise (r : Revision α) (lib : Library α) (id : LayerId) :
    (lib.revise r).layers[id]? = if r.target = id then r.layer? else lib.layers[id]? := by
  cases r with
  | define l => exact LayerTable.lookup_insert _ _ _ _
  | remove other => exact LayerTable.lookup_erase _ _ _
  | build base t begun items => exact LayerTable.lookup_insert _ _ _ _

omit [Scalar α] in
/-- A revision leaves the other layers alone. -/
theorem lookup_revise_of_ne {r : Revision α} {id : LayerId} (h : r.target ≠ id)
    (lib : Library α) : (lib.revise r).layers[id]? = lib.layers[id]? := by
  rw [lookup_revise, if_neg h]

omit [Scalar α] in
/-- Without a revision of a layer it stays what it was. -/
theorem lookup_replay_append {recent start : List (Revision α)} {id : LayerId}
    (h : ∀ r ∈ recent, r.target ≠ id) :
    (replay (recent ++ start)).layers[id]? = (replay start).layers[id]? := by
  induction recent with
  | nil => rfl
  | cons r rest ih =>
      rw [List.cons_append, replay, lookup_revise_of_ne (h r List.mem_cons_self)]
      exact ih fun r hr => h r (List.mem_cons_of_mem _ hr)

/-- **The origin of a variant.** Its items are the transformed items of its base as it was when the
variant was begun. -/
theorem origin?_spec {history : List (Revision α)} (h : AllBuilt history) {id base : LayerId}
    {t : Transform α} {start : List (Revision α)}
    (horigin : origin? id history = some (base, t, start)) :
    id = base.variant t.tag ∧ start <:+ history ∧
      ∃ snapshot variant, (replay start).layers[base]? = some snapshot ∧
        (replay history).layers[id]? = some variant ∧
        variant.items.toList = snapshot.items.toList.map (Item.transform t) := by
  induction history with
  | nil => cases horigin
  | cons r past ih =>
      rw [origin?] at horigin
      by_cases htarget : r.target = id
      · rw [if_pos htarget] at horigin
        cases r with
        | define l => cases horigin
        | remove other => cases horigin
        | build base' t' begun items =>
            obtain ⟨rfl, rfl, rfl⟩ : base' = base ∧ t' = t ∧
                past.drop (past.length - begun) = start := by
              simpa [builtFrom?] using horigin
            obtain ⟨layer, hlayer, rfl⟩ := h.1.snapshot
            have hsuffix : past.drop (past.length - begun) <:+ past := List.drop_suffix _ _
            refine ⟨htarget.symm, hsuffix.trans (List.suffix_cons _ _), layer,
              .ofItems id (layer.items.toList.map (Item.transform t')), hlayer, ?_, by simp⟩
            rw [replay, lookup_revise, if_pos htarget, ← htarget]
            rfl
      · rw [if_neg htarget] at horigin
        have hpast : AllBuilt past := by
          cases r with
          | define l => exact h
          | remove other => exact h
          | build base' t' begun items => exact h.2
        obtain ⟨hid, hsuffix, snapshot, variant, hsnapshot, hvariant, hitems⟩ := ih hpast horigin
        refine ⟨hid, hsuffix.trans (List.suffix_cons _ _), snapshot, variant, hsnapshot, ?_,
          hitems⟩
        rw [replay, lookup_revise_of_ne htarget]
        exact hvariant

/-! ### Building variants -/

/-- What building under a transform makes of a library with history `start`: one that its history
explains, and that only variants under this transform have been added to. -/
structure Grown (t : Transform α) (start : List (Revision α)) (lib : Library α) : Prop where
  chronicled : lib.Chronicled
  grown : ∃ recent, lib.history = recent ++ start ∧ ∀ r ∈ recent, r.BuildsUnder t

/-- A library grows from itself. -/
theorem Chronicled.grown {lib : Library α} (h : lib.Chronicled) (t : Transform α) :
    lib.Grown t lib.history := ⟨h, [], rfl, by simp⟩

/-- What grows twice grows. -/
theorem Grown.trans {t : Transform α} {start : List (Revision α)} {lib lib' : Library α}
    (h : lib.Grown t start) (h' : lib'.Grown t lib.history) : lib'.Grown t start := by
  obtain ⟨recent, hrecent, hbuilds⟩ := h.grown
  obtain ⟨recent', hrecent', hbuilds'⟩ := h'.grown
  refine ⟨h'.chronicled, recent' ++ recent, by rw [hrecent', hrecent, List.append_assoc], ?_⟩
  exact fun r hr => (List.mem_append.mp hr).elim (hbuilds' r) (hbuilds r)

/-- A variant is complete after the variants that it pastes. -/
theorem Grown.build {t : Transform α} {start : List (Revision α)} {lib lib' : Library α}
    (h : lib.Grown t start) (h' : lib'.Grown t lib.history) {base : LayerId} {layer : Layer α}
    (hlayer : lib.layers[base]? = some layer) :
    (lib'.revise (.build base t lib.history.length
      (layer.items.toList.map (Item.transform t)))).Grown t start := by
  obtain ⟨recent, hrecent, hbuilds⟩ := h.grown
  obtain ⟨recent', hrecent', hbuilds'⟩ := h'.grown
  have hlength : lib'.history.length - lib.history.length = recent'.length := by
    rw [hrecent', List.length_append]
    omega
  refine ⟨h'.chronicled.revise ?_, .build base t lib.history.length
    (layer.items.toList.map (Item.transform t)) :: (recent' ++ recent), ?_, ?_⟩
  · rintro base' t' begun items hbuild
    obtain ⟨rfl, rfl, rfl, rfl⟩ := Revision.build.inj hbuild
    refine ⟨?_, ?_, layer, ?_, rfl⟩
    · rw [hrecent', List.length_append]
      omega
    · rw [hlength, hrecent', List.take_left]
      exact hbuilds'
    · rw [hlength, hrecent', List.drop_left, ← h.chronicled.replayed]
      exact hlayer
  · rw [history_revise, hrecent', hrecent]
    simp
  · intro r hr
    rcases List.mem_cons.mp hr with rfl | hr
    · exact ⟨_, _, _, rfl⟩
    · exact (List.mem_append.mp hr).elim (hbuilds' r) (hbuilds r)

/-- **Building a variant.** The induction is on how deep variants are nested. -/
theorem ensures_build (t : Transform α) (depth : Nat) (path : List LayerId) (base : LayerId)
    (start : List (Revision α)) :
    (build t depth path base).Ensures (Grown t start)
      (fun id lib => id = base.variant t.tag ∧ lib.Grown t start) fun _ => Grown t start := by
  induction depth generalizing path base start with
  | zero => exact fun lib hlib => hlib
  | succ depth ih =>
      rw [build]
      refine Action.Ensures.get_bind fun lib hlib => ?_
      split
      · rintro _ rfl
        exact ⟨rfl, hlib⟩
      split
      · rintro _ rfl
        exact hlib
      split
      · rintro _ rfl
        exact hlib
      · rename_i layer hlayer
        -- what is pasted is built after the items of the base have been read
        have hitems := Action.Ensures.mapM fun item (_ : item ∈ layer.items.toList) =>
          ensures_buildItem item (fun _ _ h => h) fun source _ =>
            ih (base :: path) source lib.history
        have hfail : ∀ lib', Grown t lib.history lib' → Grown t start lib' :=
          fun lib' h' => hlib.trans h'
        refine Action.Ensures.strengthen (R := Grown t lib.history) ?_ ?_
        · refine Action.Ensures.bind (hitems.weaken (fun _ _ h => h) fun _ => hfail)
            fun items => Action.Ensures.of_and ?_
          rintro rfl lib' hlib'
          exact ⟨rfl, hlib.build hlib' hlayer⟩
        · rintro _ rfl
          exact hlib.chronicled.grown t

/-- A layer under a transform is there after some variants have been built, or none. -/
theorem Chronicled.grown_variant {lib : Library α} (h : lib.Chronicled) (t : Transform α)
    (base : LayerId) : (variant t base lib).state.Grown t lib.history := by
  rw [variant, Action.get_bind]
  split
  · exact h.grown t
  split
  · exact h.grown t
  · have hbuild := ensures_build t (nestingBound lib.layers) [] base lib.history
    exact (hbuild.weaken (fun _ _ h => h.2) fun _ _ h => h).keeps lib (h.grown t)

/-- A library that only variants have been added to has more of them, or is what it was. -/
theorem Grown.eq_or_lt {t : Transform α} {lib lib' : Library α} (h : lib.Chronicled)
    (h' : lib'.Grown t lib.history) : lib' = lib ∨ lib.builds < lib'.builds := by
  obtain ⟨recent, hrecent, hbuilds⟩ := h'.grown
  cases recent with
  | nil =>
      left
      rw [h'.chronicled.replayed, hrecent, List.nil_append, ← h.replayed]
  | cons r rest =>
      obtain ⟨base, begun, items, rfl⟩ := hbuilds r List.mem_cons_self
      right
      rw [builds, builds, hrecent, List.cons_append, List.countP_cons_of_pos rfl,
        List.countP_append]
      omega

/-- Looking a variant up keeps a library explained by its history. -/
theorem keeps_variant (t : Transform α) (base : LayerId) :
    Action.Keeps Chronicled (variant t base) :=
  fun _ h => (h.grown_variant t base).chronicled

end Library

/-! ### Programs -/

/-- Every run of a program, however it ends, leaves a library that its history explains. -/
theorem chronicled_composed (options : Options) (nodes : List (Node α)) :
    (composed options nodes).Tied Library.Chronicled := by
  have hkeeps := Composer.keeps_receiver (α := α)
    (fun lib l h => h.revise fun _ _ _ _ heq => by cases heq)
    (fun lib id h => h.revise fun _ _ _ _ heq => by cases heq) Library.keeps_variant
  exact Machine.keeps_run hkeeps options nodes _
    (Composer.tied_initial Library.chronicled_empty)

/-- The complete layers of a run are in its picture, if they are needed, under their names. -/
theorem lookup_allLayers {options : Options} {nodes : List (Node α)} {id : LayerId}
    (h : id ≠ .main) : (composed options nodes).allLayers[id]? =
      (composed options nodes).layers[id]? := by
  rw [Composer.allLayers, LayerTable.lookup_insert, (chronicled_composed options nodes).main_id,
    if_neg h.symm]

/-- The commands that show a layer under a transform. -/
def Layer.shownUnder (t : Transform α) (layer : Layer α) : List (DrawCommand α) :=
  layer.items.toList.map fun item => .ofItem (item.transform t)

/-- Every emitted variant shows its base as it was when the variant was begun. This is the base as
it is in the end if there was no revision of it since then. -/
def VariantsShowSnapshots (options : Options) (nodes : List (Node α)) (picture : Picture α) :
    Prop :=
  ∀ id base t start commands,
    Library.origin? id (composed options nodes).history = some (base, t, start) →
    picture.layer? id = some commands →
    id = base.variant t.tag ∧ ∃ since snapshot,
      (composed options nodes).history = since ++ start ∧
        (Library.replay start).layers[base]? = some snapshot ∧
        commands = snapshot.shownUnder t ∧
        ((∀ r ∈ since, r.target ≠ base) →
          (composed options nodes).layers[base]? = some snapshot)

/-- Every emitted variant shows its base, if there still is one, as it is in the end. -/
def VariantsUpToDate (options : Options) (nodes : List (Node α)) (picture : Picture α) : Prop :=
  ∀ id base t start commands final,
    Library.origin? id (composed options nodes).history = some (base, t, start) →
    picture.layer? id = some commands → (composed options nodes).layers[base]? = some final →
    commands = final.shownUnder t

/-- Every base of an emitted variant looks the same under the transform as when the variant was
begun. -/
def BasesUnchanged (options : Options) (nodes : List (Node α)) (picture : Picture α) : Prop :=
  ∀ id base t start commands snapshot final,
    Library.origin? id (composed options nodes).history = some (base, t, start) →
    picture.layer? id = some commands →
    (Library.replay start).layers[base]? = some snapshot →
    (composed options nodes).layers[base]? = some final →
    snapshot.shownUnder t = final.shownUnder t

/-- The layers of a picture are those of the library, and their history explains them. -/
theorem variantsShowSnapshots_of_compile {options : Options} {nodes : List (Node α)}
    {picture : Picture α} {diagnostics : List Diagnostic}
    (hcompile : ((compile options nodes).run ()).result = .ok (picture, diagnostics)) :
    VariantsShowSnapshots options nodes picture := by
  intro id base t start commands horigin hemitted
  obtain ⟨hreplayed, hbuilt⟩ := (chronicled_composed options nodes).library
  obtain ⟨hid, ⟨since, hsince⟩, snapshot, variant, hsnapshot, hvariant, hitems⟩ :=
    Library.origin?_spec hbuilt horigin
  obtain ⟨-, layer, hlayer, rfl⟩ :=
    (Picture.layer?_eq_some_iff (compile_eq_ok_iff.mp hcompile).2.1).mp hemitted
  have hmain : id ≠ .main := hid ▸ LayerId.variant_ne_main base t.tag
  rw [lookup_allLayers hmain, hreplayed] at hlayer
  obtain rfl : variant = layer := Option.some.inj (hvariant.symm.trans hlayer)
  refine ⟨hid, since, snapshot, hsince.symm, hsnapshot, ?_, fun hunrevised => ?_⟩
  · rw [hitems, List.map_map]
    rfl
  · rw [hreplayed, ← hsince, Library.lookup_replay_append hunrevised]
    exact hsnapshot

/-- **When variants are up to date.** For every program that is compiled, the emitted variants show
their bases as they were when the variants were begun. So they show their bases as they are in the
end exactly if these look the same under the transforms. -/
theorem variantsUpToDate_iff {options : Options} {nodes : List (Node α)} {picture : Picture α}
    {diagnostics : List Diagnostic}
    (hcompile : ((compile options nodes).run ()).result = .ok (picture, diagnostics)) :
    VariantsShowSnapshots options nodes picture ∧
      (VariantsUpToDate options nodes picture ↔ BasesUnchanged options nodes picture) := by
  have hshow := variantsShowSnapshots_of_compile hcompile
  refine ⟨hshow, fun h => ?_, fun h => ?_⟩
  · intro id base t start commands snapshot final horigin hemitted hsnapshot hfinal
    obtain ⟨-, -, snapshot', -, hsnapshot', rfl, -⟩ := hshow id base t start _ horigin hemitted
    obtain rfl : snapshot = snapshot' := Option.some.inj (hsnapshot.symm.trans hsnapshot')
    exact h id base t start _ final horigin hemitted hfinal
  · intro id base t start commands final horigin hemitted hfinal
    obtain ⟨-, -, snapshot, -, hsnapshot, rfl, -⟩ := hshow id base t start _ horigin hemitted
    exact h id base t start _ snapshot final horigin hemitted hsnapshot hfinal

/-! ### An aperture that is defined again -/

/-- A block pastes an aperture, and a variant of the block is pasted before and after the aperture
is defined again. The second paste finds the variant of the block recorded, and so does not build
that of the aperture anew. -/
def redefinition : List (Node Float) :=
  let noCoordinates : Coordinates := ⟨none, none, none, none⟩
  [.command (.defineAperture ⟨⟨"D10"⟩, .circle ⟨1, none⟩⟩),
    .block ⟨"D11"⟩ [.command (.selectAperture ⟨"D10"⟩), .command (.flash noCoordinates)],
    .command (.selectAperture ⟨"D11"⟩),
    .command (.scale 2),
    .command (.flash noCoordinates),
    .command (.defineAperture ⟨⟨"D10"⟩, .circle ⟨3, none⟩⟩),
    .command (.flash noCoordinates)]

/-- The layers that the redefinition leaves, in their order. -/
theorem order_redefinition : (composed {} redefinition).allLayers.order =
    .ok [⟨"D10[MN,R0,S2]"⟩, ⟨"D11[MN,R0,S2]"⟩, .main] := by
  have hchain : (composed {} redefinition).allLayers.IsChain
      [.main, ⟨"D11[MN,R0,S2]"⟩, ⟨"D10[MN,R0,S2]"⟩] :=
    ⟨by decide +kernel, by decide +kernel, by decide +kernel, trivial⟩
  exact LayerTable.order_of_isChain hchain (by decide)

/-- The program is compiled, and the variant of the aperture is as wide as twice the old one. -/
theorem compile_redefinition : ∃ picture,
    ((compile {} redefinition).run ()).result = .ok (picture, []) ∧
      picture.layer? ⟨"D10[MN,R0,S2]"⟩ = some [.shape ⟨.circle ⟨0, 0⟩ 2, .dark⟩] := by
  have hrun : ((Machine.run Composer.receiver {} redefinition).run
      (.initial .initial)).result = .ok () := Action.eq_ok_of_isOk (by decide +kernel)
  have hdiagnostics : ((Machine.run Composer.receiver {} redefinition).run
      (.initial .initial)).state.diagnostics = [] := by decide +kernel
  have hvariant : ((composed {} redefinition).allLayers[(⟨"D10[MN,R0,S2]"⟩ : LayerId)]?.map
      fun layer => layer.items.toList.map DrawCommand.ofItem) =
      some [.shape ⟨.circle ⟨0, 0⟩ 2, .dark⟩] := by decide +kernel
  have hgroups : (Picture.groups (composed {} redefinition).allLayers ∅
      [⟨"D10[MN,R0,S2]"⟩, ⟨"D11[MN,R0,S2]"⟩, .main]).isOk := by decide +kernel
  cases hpicture : Picture.groups (composed {} redefinition).allLayers ∅
      [⟨"D10[MN,R0,S2]"⟩, ⟨"D11[MN,R0,S2]"⟩, .main] with
  | error e =>
      rw [hpicture] at hgroups
      cases hgroups
  | ok picture =>
      refine ⟨picture, compile_eq_ok_iff.mpr ⟨hrun, ?_, hdiagnostics⟩, ?_⟩
      · rw [Picture.ofLayers, order_redefinition]
        exact hpicture
      · rw [Picture.layer?_groups hpicture, if_pos List.mem_cons_self, hvariant]

/-- The origin of that variant is the aperture under the scale. -/
theorem origin?_redefinition : ∃ start,
    Library.origin? ⟨"D10[MN,R0,S2]"⟩ (composed {} redefinition).history =
      some (⟨"D10"⟩, ⟨.dark, .none, 0, 2⟩, start) := by
  have horigin : ((Library.origin? ⟨"D10[MN,R0,S2]"⟩ (composed {} redefinition).history).map
      fun o => (o.1, o.2.1)) = some (⟨"D10"⟩, ⟨.dark, .none, 0, 2⟩) := by decide +kernel
  obtain ⟨⟨base, t, start⟩, hsome, heq⟩ := Option.map_eq_some_iff.mp horigin
  obtain ⟨rfl, rfl⟩ := Prod.mk.inj heq
  exact ⟨start, hsome⟩

/-- The emitted variant of the aperture does not show the aperture as it is in the end, which is
six units wide under the scale. -/
theorem not_variantsUpToDate_redefinition : ∃ picture,
    ((compile {} redefinition).run ()).result = .ok (picture, []) ∧
      ¬ VariantsUpToDate {} redefinition picture := by
  obtain ⟨picture, hcompile, hemitted⟩ := compile_redefinition
  obtain ⟨start, horigin⟩ := origin?_redefinition
  have hfinal : ((composed {} redefinition).layers[(⟨"D10"⟩ : LayerId)]?.map
      (Layer.shownUnder ⟨.dark, .none, 0, 2⟩)) = some [.shape ⟨.circle ⟨0, 0⟩ 6, .dark⟩] := by
    decide +kernel
  obtain ⟨final, hlookup, hshown⟩ := Option.map_eq_some_iff.mp hfinal
  refine ⟨picture, hcompile, fun h => ?_⟩
  have heq := h _ _ _ start _ final horigin hemitted hlookup
  rw [hshown] at heq
  exact absurd heq (by decide +kernel)

/-- What is emitted is the aperture as it was when the variant was begun. -/
theorem variantsUpToDate_iff_redefinition : ∃ picture,
    ((compile {} redefinition).run ()).result = .ok (picture, []) ∧
      picture.layer? ⟨"D10[MN,R0,S2]"⟩ = some [.shape ⟨.circle ⟨0, 0⟩ 2, .dark⟩] ∧
      VariantsShowSnapshots {} redefinition picture ∧
      (VariantsUpToDate {} redefinition picture ↔ BasesUnchanged {} redefinition picture) := by
  obtain ⟨picture, hcompile, hemitted⟩ := compile_redefinition
  exact ⟨picture, hcompile, hemitted, variantsUpToDate_iff hcompile⟩

end Photoplot
