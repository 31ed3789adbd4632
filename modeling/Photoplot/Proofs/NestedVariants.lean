import Mathlib.Data.Finset.Card
import Photoplot.Layer.Library
import Photoplot.Proofs.LayerNames
import Photoplot.Proofs.Refinement

/-!
# Variants Are Nested to a Bounded Depth

The variant of a layer is built after the variants of all that the layer pastes. Meanwhile the
table of layers grows, and a layer may paste what is only about to be added to it. So the number of
layers in the beginning does not bound how deep variants are nested. Still there is such a bound for
every library, whatever its layers are called and whatever its record says, and with more room than
that nothing changes.

## Level convention

Each layer of the table goes back to one that was there in the beginning, its root, whose name is
followed by the tag so many times: this is its **level**. Layers are added level by level, each
after the one below was recorded.

## The argument

No layer that is being built is recorded. So when a root comes up again on the way down, it is on a
lower level than before. A root that comes up for the first time can be on a higher level than what
pastes it, but only by as many tags as a name has room for, and there are not more roots than layers
in the beginning. This bounds the levels, hence the names of the layers being built, and each of
these is met once.

## Main definitions

* `LayerId.nested`: a name followed by a tag so many times.
* `Library.Levelled`: every layer has a root and a level.
* `Library.Underway`: a library while the variants of some layers are being built.
* `Library.Climbed`: the roots that have come up on the way down.

## Main results

* `Library.ensures_build_underway`: one step of building keeps levels, hence so does every run.
* `Library.build_eq_of_room`: more room than names are left changes nothing.
* `Library.build_eq_of_nestingBound_le`: `Library.nestingBound` is room enough for every library.
-/

namespace Photoplot

namespace LayerId

/-- The name of a layer followed by a tag so many times. -/
def nested (tag : String) (level : Nat) (id : LayerId) : LayerId := (variant · tag)^[level] id

/-- One more tag comes last. -/
theorem nested_succ (tag : String) (level : Nat) (id : LayerId) :
    nested tag (level + 1) id = (nested tag level id).variant tag :=
  Function.iterate_succ_apply' _ _ _

/-- Every tag makes a name longer by itself and its brackets. -/
theorem length_name_nested (tag : String) (level : Nat) (id : LayerId) :
    (nested tag level id).name.length = id.name.length + level * (tag.length + 2) := by
  induction level with
  | zero => simp [nested]
  | succ level ih =>
      have hbrackets : "[".length + "]".length = 2 := by decide
      rw [nested_succ, variant, String.length_append, String.length_append, String.length_append,
        ih, Nat.add_one_mul]
      omega

end LayerId

namespace Library

variable {α : Type} {layers : LayerTable α} {tag : String}

/-! ### Names -/

/-- A sum that never shrinks is at least what it starts with. -/
theorem le_foldl_of_grows {β : Type} {f : Nat → β → Nat} (hgrows : ∀ n b, n ≤ f n b) (n : Nat)
    (bs : List β) : n ≤ bs.foldl f n := by
  induction bs generalizing n with
  | nil => exact Nat.le_refl n
  | cons b rest ih => exact (hgrows n b).trans (ih (f n b))

/-- A sum that never shrinks is at least what one of its terms makes of any sum. -/
theorem le_foldl_of_mem {β : Type} {f : Nat → β → Nat} (hgrows : ∀ n b, n ≤ f n b) {b : β}
    {bs : List β} (hb : b ∈ bs) {m : Nat} (hm : ∀ n, m ≤ f n b) (n : Nat) : m ≤ bs.foldl f n := by
  obtain ⟨before, after, rfl⟩ := List.append_of_mem hb
  rw [List.foldl_append, List.foldl_cons]
  exact (hm _).trans (le_foldl_of_grows hgrows _ after)

/-- No layer is known or pasted by a longer name than the longest one. -/
theorem length_le_longestName {id : LayerId} {layer : Layer α} (hlayer : layers[id]? = some layer)
    {other : LayerId} (hother : other ∈ id :: Item.sources layer.items.toList) :
    other.name.length ≤ longestName layers := by
  have hmem : (id, layer) ∈ layers.toList := Std.TreeMap.mem_toList_iff_getElem?_eq_some.mpr hlayer
  have hinner : ∀ n (source : LayerId), n ≤ max n source.name.length :=
    fun n source => Nat.le_max_left ..
  rw [longestName, Std.TreeMap.foldl_eq_foldl_toList]
  refine le_foldl_of_mem (fun n entry => ?_) hmem (fun n => ?_) 0
  · exact (Nat.le_max_left ..).trans (le_foldl_of_grows hinner _ _)
  · rcases List.mem_cons.mp hother with rfl | hother
    · exact (Nat.le_max_right ..).trans (le_foldl_of_grows hinner _ _)
    · exact le_foldl_of_mem hinner hother (fun n => Nat.le_max_right ..) _

/-- The names that the layers being built can have. -/
def levelNames (layers : LayerTable α) (tag : String) : List LayerId :=
  layers.keys.flatMap fun root =>
    (List.range (longestName layers * layers.size + 1)).map (root.nested tag ·)

/-- A root on a level that is not too high has one of these names. -/
theorem nested_mem_levelNames {root : LayerId} (hroot : root ∈ layers) {level : Nat}
    (hlevel : level ≤ longestName layers * layers.size) :
    root.nested tag level ∈ levelNames layers tag :=
  List.mem_flatMap.mpr ⟨root, Std.TreeMap.mem_keys.mpr hroot,
    List.mem_map.mpr ⟨level, List.mem_range.mpr (Nat.lt_succ_of_le hlevel), rfl⟩⟩

/-- There are fewer of these names than the bound on nested variants. -/
theorem length_levelNames_lt (layers : LayerTable α) (tag : String) :
    (levelNames layers tag).length < nestingBound layers := by
  have hlength : (levelNames layers tag).length =
      layers.size * (longestName layers * layers.size + 1) := by
    simp [levelNames, List.length_flatMap, Std.TreeMap.length_keys]
  have hlevels : longestName layers * layers.size + 1 ≤
      layers.size * (longestName layers + 1) + 2 := by
    rw [Nat.mul_comm, Nat.mul_add_one]
    omega
  have hpart := Nat.mul_le_mul_left layers.size hlevels
  rw [hlength, nestingBound, Nat.add_one_mul]
  omega

/-! ### Levels -/

/-- A layer goes back to a root on a level. It pastes what its root pastes on this level, and all
lower levels are recorded. -/
structure OnLevel (layers : LayerTable α) (tag : String) (id : LayerId) (layer : Layer α)
    (root : LayerId) (level : Nat) (lib : Library α) : Prop where
  known : root ∈ layers
  name : id = root.nested tag level
  sources : ∀ source ∈ Item.sources layer.items.toList,
    ∃ pasted : LayerId, pasted.name.length ≤ longestName layers ∧ source = pasted.nested tag level
  below : ∀ lower < level, (root.nested tag lower, tag) ∈ lib.variants

/-- Every layer goes back to one of a given table. -/
def Levelled (layers : LayerTable α) (tag : String) (lib : Library α) : Prop :=
  ∀ id layer, lib.layers[id]? = some layer →
    ∃ root level, lib.OnLevel layers tag id layer root level

/-- What more is recorded does not change levels. -/
theorem OnLevel.mono {lib lib' : Library α} {id root : LayerId} {layer : Layer α} {level : Nat}
    (h : lib.OnLevel layers tag id layer root level) (hvariants : lib.variants ⊆ lib'.variants) :
    lib'.OnLevel layers tag id layer root level :=
  { h with below := fun lower hlower => hvariants (h.below lower hlower) }

/-- In the beginning every layer is its own root. -/
theorem levelled_self (lib : Library α) (tag : String) : lib.Levelled lib.layers tag := by
  refine fun id layer hlayer => ⟨id, 0, ?_, rfl, fun source hsource => ?_, nofun⟩
  · exact LayerTable.mem_iff_lookup.mpr ⟨layer, hlayer⟩
  · exact ⟨source, length_le_longestName hlayer (List.mem_cons_of_mem _ hsource), rfl⟩

variable [Scalar α] [Legible α] {t : Transform α}

/-- The variant of a layer is one level above it. -/
theorem Levelled.complete {lib : Library α} (h : lib.Levelled layers t.tag)
    {base root : LayerId} {layer : Layer α} {level : Nat}
    (hbase : lib.OnLevel layers t.tag base layer root level) (begun : Nat) :
    (lib.revise (.build base t begun (layer.items.toList.map (Item.transform t)))).Levelled layers
      t.tag := by
  have hvariants : lib.variants ⊆ (lib.revise
      (.build base t begun (layer.items.toList.map (Item.transform t)))).variants :=
    List.subset_cons_self _ _
  intro id layer' hlayer'
  replace hlayer' := (LayerTable.lookup_insert _ _ _ _).symm.trans hlayer'
  split at hlayer'
  · rename_i hid
    obtain rfl := Option.some.inj hlayer'
    refine ⟨root, level + 1, hbase.known, ?_, fun source hsource => ?_, fun lower hlower => ?_⟩
    · rw [← hid, hbase.name, LayerId.nested_succ]
    · rw [Layer.items_ofItems, Item.sources_map_transform] at hsource
      obtain ⟨source', hsource', rfl⟩ := List.mem_map.mp hsource
      obtain ⟨pasted, hlength, rfl⟩ := hbase.sources source' hsource'
      exact ⟨pasted, hlength, (LayerId.nested_succ _ _ _).symm⟩
    · rcases Nat.lt_succ_iff_lt_or_eq.mp hlower with hlower | rfl
      · exact hvariants (hbase.below lower hlower)
      · rw [← hbase.name]
        exact List.mem_cons_self
  · obtain ⟨root', level', hlevel'⟩ := h id layer' hlayer'
    exact ⟨root', level', hlevel'.mono hvariants⟩

/-! ### What a run keeps -/

/-- A library while the layers in `path` are being built: none of them is recorded, and nothing of
what was recorded before is lost. -/
structure Underway (layers : LayerTable α) (tag : String) (path : List LayerId)
    (recorded : List (LayerId × String)) (lib : Library α) : Prop where
  levelled : lib.Levelled layers tag
  unrecorded : ∀ p ∈ path, (p, tag) ∉ lib.variants
  kept : recorded ⊆ lib.variants

omit [Scalar α] [Legible α] in
/-- One more layer is begun. -/
theorem Underway.begin {path : List LayerId} {recorded : List (LayerId × String)} {lib : Library α}
    (h : lib.Underway layers tag path recorded) {base : LayerId}
    (hbase : (base, tag) ∉ lib.variants) :
    lib.Underway layers tag (base :: path) lib.variants :=
  ⟨h.levelled, List.forall_mem_cons.mpr ⟨hbase, h.unrecorded⟩, List.Subset.refl _⟩

omit [Scalar α] [Legible α] in
/-- The layer that was begun last is given up. -/
theorem Underway.leave {path : List LayerId} {recorded : List (LayerId × String)}
    {lib lib' : Library α} (h : lib.Underway layers tag path recorded) {base : LayerId}
    (h' : lib'.Underway layers tag (base :: path) lib.variants) :
    lib'.Underway layers tag path recorded :=
  ⟨h'.levelled, (List.forall_mem_cons.mp h'.unrecorded).2, List.Subset.trans h.kept h'.kept⟩

/-- The variant of the layer that was begun last is complete. -/
theorem Underway.complete {path : List LayerId} {recorded : List (LayerId × String)}
    {lib lib' : Library α} (h : lib.Underway layers t.tag path recorded) {base root : LayerId}
    {layer : Layer α} {level : Nat} (hbase : lib.OnLevel layers t.tag base layer root level)
    (hopen : base ∉ path) (h' : lib'.Underway layers t.tag (base :: path) lib.variants)
    (begun : Nat) :
    (lib'.revise (.build base t begun (layer.items.toList.map (Item.transform t)))).Underway layers
      t.tag path recorded where
  levelled := h'.levelled.complete (hbase.mono h'.kept) begun
  unrecorded p hp hentry := by
    rcases List.mem_cons.mp hentry with heq | hentry
    · exact hopen ((Prod.mk.inj heq).1 ▸ hp)
    · exact (h.leave h').unrecorded p hp hentry
  kept := List.Subset.trans (h.leave h').kept (List.subset_cons_self _ _)

/-- An item is transformed by itself, or pastes the variant that was built for it. -/
theorem ensures_buildItem {P Q : Library α → Prop} {E : Error → Library α → Prop}
    {nested : LayerId → Action (Library α) LayerId} (item : Item α)
    (hshape : item.source? = none → ∀ lib, P lib → Q lib)
    (hpaste : ∀ source, item.source? = some source →
      (nested source).Ensures P (fun id lib => id = source.variant t.tag ∧ Q lib) E) :
    (buildItem t nested item).Ensures P (fun built lib => built = item.transform t ∧ Q lib) E := by
  cases item with
  | shape s => exact fun lib hlib => ⟨rfl, hshape rfl lib hlib⟩
  | paste p =>
      refine Action.Ensures.bind (hpaste p.source rfl) fun source => Action.Ensures.of_and ?_
      rintro rfl
      exact fun lib hlib => ⟨rfl, hlib⟩

/-- **Levels are kept** while a variant is built, and so is the record. The induction is on how deep
variants are nested. -/
theorem ensures_build_underway (layers : LayerTable α) (t : Transform α) (depth : Nat)
    (path : List LayerId) (base : LayerId) (recorded : List (LayerId × String)) :
    (build t depth path base).Ensures (Underway layers t.tag path recorded)
      (fun id lib => id = base.variant t.tag ∧ lib.Underway layers t.tag path recorded)
      fun _ => Underway layers t.tag path recorded := by
  induction depth generalizing path base recorded with
  | zero => exact fun lib hlib => hlib
  | succ depth ih =>
      rw [build]
      refine Action.Ensures.get_bind fun lib hlib => ?_
      split
      · rintro _ rfl
        exact ⟨rfl, hlib⟩
      rename_i hnew
      split
      · rintro _ rfl
        exact hlib
      rename_i hopen
      split
      · rintro _ rfl
        exact hlib
      · rename_i layer hlayer
        obtain ⟨root, level, hbase⟩ := hlib.levelled base layer hlayer
        have hitems := Action.Ensures.mapM fun item (_ : item ∈ layer.items.toList) =>
          ensures_buildItem item (fun _ _ h => h) fun source _ =>
            ih (base :: path) source lib.variants
        refine Action.Ensures.strengthen
          (R := Underway layers t.tag (base :: path) lib.variants) ?_ ?_
        · refine Action.Ensures.bind (hitems.weaken (fun _ _ h => h) fun _ _ h' => hlib.leave h')
            fun items => Action.Ensures.of_and ?_
          rintro rfl lib' hlib'
          exact ⟨rfl, hlib.complete hbase (by simpa using hopen) hlib' _⟩
        · rintro _ rfl
          exact hlib.begin (by simpa using hnew)

/-! ### Room -/

/-- The roots that have come up on the way down to the layers in `path`. Each of them has been begun
on a level that the number of roots bounds. -/
structure Climbed (layers : LayerTable α) (tag : String) (path : List LayerId)
    (roots : Finset LayerId) : Prop where
  known : ∀ root ∈ roots, root ∈ layers
  begun : ∀ root ∈ roots, ∃ level ≤ longestName layers * roots.card, root.nested tag level ∈ path

/-- A layer that is pasted on the way: some name that is not too long, on a level that the number of
roots bounds. -/
def PastedOnWay (layers : LayerTable α) (tag : String) (roots : Finset LayerId) (id : LayerId) :
    Prop :=
  ∃ (pasted : LayerId) (level : Nat), pasted.name.length ≤ longestName layers ∧
    level ≤ longestName layers * roots.card ∧ id = pasted.nested tag level

omit [Scalar α] [Legible α] in
/-- There are not more roots than layers in the beginning. -/
theorem Climbed.card_le {path : List LayerId} {roots : Finset LayerId}
    (h : Climbed layers tag path roots) : roots.card ≤ layers.size := by
  rw [← Std.TreeMap.length_keys]
  refine (Finset.card_le_card fun root hroot => ?_).trans (List.toFinset_card_le layers.keys)
  exact List.mem_toFinset.mpr (Std.TreeMap.mem_keys.mpr (h.known root hroot))

omit [Scalar α] [Legible α] in
/-- **One step down.** A root that has come up before is on no higher level than then, since the
levels below the new one are recorded and the old one is not. A new root is higher than what pastes
it by at most as many tags as there is room for in a name. -/
theorem Climbed.step {path : List LayerId} {roots : Finset LayerId}
    {recorded : List (LayerId × String)} {lib : Library α} (h : Climbed layers tag path roots)
    (hlib : lib.Underway layers tag path recorded) {base root : LayerId} {layer : Layer α}
    {level : Nat} (hpasted : PastedOnWay layers tag roots base)
    (hbase : lib.OnLevel layers tag base layer root level) :
    Climbed layers tag (base :: path) (insert root roots) ∧
      level ≤ longestName layers * (insert root roots).card := by
  have hlevel : level ≤ longestName layers * (insert root roots).card := by
    by_cases hroot : root ∈ roots
    · obtain ⟨begun, hbegun, hpath⟩ := h.begun root hroot
      rw [Finset.insert_eq_of_mem hroot]
      refine Nat.le_trans (Nat.not_lt.mp fun hlower => ?_) hbegun
      exact hlib.unrecorded _ hpath (hbase.below begun hlower)
    · obtain ⟨pasted, high, hlength, hhigh, hname⟩ := hpasted
      have hlengths := congrArg (fun id : LayerId => id.name.length) (hbase.name.symm.trans hname)
      simp only [LayerId.length_name_nested] at hlengths
      have hless : level ≤ high + longestName layers := by
        by_contra hmore
        have htags : (high + (longestName layers + 1)) * (tag.length + 2) ≤
            level * (tag.length + 2) := Nat.mul_le_mul_right _ (by omega)
        have hroom := Nat.le_mul_of_pos_right (longestName layers + 1)
          (show 0 < tag.length + 2 by omega)
        rw [Nat.add_mul] at htags
        omega
      rw [Finset.card_insert_of_notMem hroot, Nat.mul_add_one]
      omega
  refine ⟨⟨?_, ?_⟩, hlevel⟩
  · exact (Finset.forall_mem_insert _ _ _).mpr ⟨hbase.known, h.known⟩
  · refine (Finset.forall_mem_insert _ _ _).mpr ⟨?_, fun other hother => ?_⟩
    · exact ⟨level, hlevel, hbase.name ▸ List.mem_cons_self⟩
    · obtain ⟨begun, hbegun, hpath⟩ := h.begun other hother
      exact ⟨begun, hbegun.trans (Nat.mul_le_mul_left _ (Finset.card_le_card
        (Finset.subset_insert _ _))), List.mem_cons_of_mem _ hpath⟩

/-- **More room** changes nothing once there is more room than names are left. -/
theorem build_eq_of_room {depth depth' : Nat} {path : List LayerId} {roots : Finset LayerId}
    {recorded : List (LayerId × String)} {base : LayerId} {lib : Library α}
    (hclimbed : Climbed layers t.tag path roots) (hpasted : PastedOnWay layers t.tag roots base)
    (hlib : lib.Underway layers t.tag path recorded)
    (hdepth : (levelNames layers t.tag).countP (!path.contains ·) < depth)
    (hdepth' : (levelNames layers t.tag).countP (!path.contains ·) < depth') :
    build t depth path base lib = build t depth' path base lib := by
  induction depth generalizing depth' path roots recorded base lib with
  | zero => exact absurd hdepth (Nat.not_lt_zero _)
  | succ depth ih =>
      obtain ⟨depth', rfl⟩ := Nat.exists_eq_add_one_of_ne_zero (Nat.ne_zero_of_lt hdepth')
      rw [build, build, Action.get_bind, Action.get_bind]
      split
      · rfl
      rename_i hnew
      split
      · rfl
      rename_i hopen
      cases hlayer : lib.layers[base]? with
      | none => rfl
      | some layer =>
          obtain ⟨root, level, hbase⟩ := hlib.levelled base layer hlayer
          obtain ⟨hclimbed', hlevel⟩ := hclimbed.step hlib hpasted hbase
          have hname : base ∈ levelNames layers t.tag := hbase.name ▸
            nested_mem_levelNames hbase.known
              (hlevel.trans (Nat.mul_le_mul_left _ hclimbed'.card_le))
          have hless := countP_notMem_cons_lt hname hopen
          refine Action.bind_congr_left (Action.Keeps.mapM_congr
            (P := Underway layers t.tag (base :: path) lib.variants)
            (fun item _ => ?_) (fun item hitem lib' hlib' => ?_)
            (hlib.begin (by simpa using hnew)))
          · have hkeeps := ensures_buildItem (t := t) item (fun _ _ h => h) fun source _ =>
              ensures_build_underway layers t depth (base :: path) source lib.variants
            exact (hkeeps.weaken (fun _ _ h => h.2) fun _ _ => id).keeps
          · cases item with
            | shape s => rfl
            | paste p =>
                obtain ⟨pasted, hlength, hsource⟩ :=
                  hbase.sources p.source (List.mem_filterMap.mpr ⟨_, hitem, rfl⟩)
                exact Action.bind_congr_left (ih hclimbed' ⟨pasted, level, hlength, hlevel, hsource⟩
                  hlib' (by omega) (by omega))

/-- **The bound is room enough**, for every library: a variant never fails for want of depth, and
more depth changes nothing about the outcome. -/
theorem build_eq_of_nestingBound_le (lib : Library α) (t : Transform α) (base : LayerId)
    {depth : Nat} (hdepth : nestingBound lib.layers ≤ depth) :
    build t depth [] base lib = build t (nestingBound lib.layers) [] base lib := by
  have hnames := length_levelNames_lt lib.layers t.tag
  cases hlayer : lib.layers[base]? with
  | some layer =>
      have hroom : (levelNames lib.layers t.tag).countP (!([] : List LayerId).contains ·) <
          nestingBound lib.layers := List.countP_le_length.trans_lt hnames
      have hclimbed : Climbed lib.layers t.tag [] ∅ := ⟨by simp, by simp⟩
      have hlib : lib.Underway lib.layers t.tag [] [] :=
        ⟨levelled_self lib t.tag, by simp, List.nil_subset _⟩
      refine build_eq_of_room hclimbed ⟨base, 0, ?_, Nat.zero_le _, rfl⟩ hlib
        (hroom.trans_le hdepth) hroom
      exact length_le_longestName hlayer List.mem_cons_self
  | none =>
      -- nothing is built
      obtain ⟨bound, hbound⟩ := Nat.exists_eq_add_one_of_ne_zero (Nat.ne_zero_of_lt hnames)
      obtain ⟨depth, rfl⟩ :=
        Nat.exists_eq_add_one_of_ne_zero (Nat.ne_zero_of_lt (hnames.trans_le hdepth))
      rw [hbound, build, build, Action.get_bind, Action.get_bind, hlayer]

end Library

end Photoplot
