import Mathlib.Data.List.Induction
import Photoplot.Proofs.Scope

/-!
# The Aperture Store

Apertures and blocks are kept in a table each, and the attributes that were set when they were
defined in a third one. The three tables together remember one thing for each id: its **last
definition**. This module looks the last definition up in the calls that were made, and proves that
the tables agree with it, however definitions of both kinds, of macros and of attributes follow on
each other.

## History convention

Calls are looked back upon in a list, the first one first. Which of them have been accepted, which
one was the last for an id, and which attributes were set at that time can all be said about the
list alone, without the tables.

## Main definitions

* `StoreCall`, `StoreCall.applyAll`: calls, and the state after calls in order.
* `StoreCall.Accepts`, `StoreCall.Rejects`: what becomes of a call after others.
* `LastDefinition`: the last definition of an id among calls.
* `tableAfter`: the aperture attributes that are set after calls.
* `Remembers`: the tables of a state are those that calls lead to.

## Main results

* `lastDefinition_concat_self`, `lastDefinition_concat_of_ne`: what one more call makes of the last
  definition.
* `Remembers.apply`: one more call is remembered.
* `StoreCall.remembers_applyAll`: all calls are remembered.
* `StoreCall.last_definition_wins`: what the store tells about an id.
-/

namespace Photoplot

variable {α : Type}

/-- A call that concerns what is kept under the ids of apertures. -/
inductive StoreCall (α : Type) where
  | defineAperture (d : ApertureDefinition α)
  | defineBlock (b : Block α)
  | defineMacro (m : ApertureMacro α)
  | setAttribute (kind : AttributeKind) (a : Attribute)
  | deleteAttribute (name : Option String)

namespace StoreCall

/-- Makes a call. -/
def apply : StoreCall α → Action (GraphicsState α) Unit
  | defineAperture d => GraphicsState.defineAperture d
  | defineBlock b => Action.modify (GraphicsState.defineBlock b)
  | defineMacro m => Action.modify (GraphicsState.defineMacro m)
  | setAttribute kind a => Action.modify (GraphicsState.setAttribute kind a)
  | deleteAttribute name => Action.modify (GraphicsState.deleteAttribute name)

/-- The state after calls in order. A call that fails does not keep the others from being made. -/
def applyAll (calls : List (StoreCall α)) (s : GraphicsState α) : GraphicsState α :=
  calls.foldl (fun s call => (call.apply s).state) s

/-- The last call is made in the state after the calls before it. -/
theorem applyAll_concat (calls : List (StoreCall α)) (call : StoreCall α) (s : GraphicsState α) :
    applyAll (calls ++ [call]) s = (call.apply (applyAll calls s)).state := by
  simp [applyAll]

end StoreCall

/-! ### Looking back -/

/-- One of the calls defines a macro of this name. -/
def DefinesMacro (calls : List (StoreCall α)) (name : String) : Prop :=
  ∃ m, .defineMacro m ∈ calls ∧ m.name = name

/-- A call that is made after the calls `before` defines `x`. -/
inductive StoreCall.Accepts (before : List (StoreCall α)) : StoreCall α → Resolved α → Prop
  | aperture {d : ApertureDefinition α}
      (h : ∀ name parameters, d.template = .macroCall name parameters → DefinesMacro before name) :
      Accepts before (.defineAperture d) (.aperture d)
  | block (b : Block α) : Accepts before (.defineBlock b) (.block b)

/-- A call that is made after the calls `before` lacks a macro of this name. -/
inductive StoreCall.Rejects (before : List (StoreCall α)) : StoreCall α → String → Prop
  | aperture {d : ApertureDefinition α} {name : String} {parameters : List α}
      (htemplate : d.template = .macroCall name parameters) (h : ¬ DefinesMacro before name) :
      Rejects before (.defineAperture d) name

/-- Among the calls there is one, after the calls `before`, that defines `x`. -/
def Definition (calls before : List (StoreCall α)) (x : Resolved α) : Prop :=
  ∃ call after, calls = before ++ call :: after ∧ call.Accepts before x

/-- The last definition of an id among the calls is that of `x`, after the calls `before`. -/
structure LastDefinition (calls : List (StoreCall α)) (id : ApertureId)
    (before : List (StoreCall α)) (x : Resolved α) : Prop where
  definition : Definition calls before x
  hasId : x.id = id
  last (before' : List (StoreCall α)) (y : Resolved α) :
    Definition calls before' y → y.id = id → before'.length ≤ before.length

/-- What a call does to the aperture attributes that are set. -/
def StoreCall.onTable (table : AttributeTable) : StoreCall α → AttributeTable
  | setAttribute .aperture a => table.insert a.name a
  | deleteAttribute none => ∅
  | deleteAttribute (some name) => table.erase name
  | setAttribute .file _ | setAttribute .object _ | defineAperture _ | defineBlock _
  | defineMacro _ => table

/-- The aperture attributes that are set after calls. -/
def tableAfter (calls : List (StoreCall α)) : AttributeTable :=
  calls.foldl StoreCall.onTable ∅

/-- The last call changes the attributes that are set after the calls before it. -/
theorem tableAfter_concat (calls : List (StoreCall α)) (call : StoreCall α) :
    tableAfter (calls ++ [call]) = call.onTable (tableAfter calls) := by
  simp [tableAfter]

/-- A macro is defined by one of the calls before the last or by the last one. -/
theorem definesMacro_concat {calls : List (StoreCall α)} {call : StoreCall α} {name : String} :
    DefinesMacro (calls ++ [call]) name ↔
      DefinesMacro calls name ∨ ∃ m, call = .defineMacro m ∧ m.name = name := by
  constructor
  · rintro ⟨m, hm, rfl⟩
    rcases List.mem_append.mp hm with hm | hm
    · exact .inl ⟨m, hm, rfl⟩
    · exact .inr ⟨m, (List.mem_singleton.mp hm).symm, rfl⟩
  · rintro (⟨m, hm, rfl⟩ | ⟨m, rfl, rfl⟩)
    · exact ⟨m, List.mem_append_left _ hm, rfl⟩
    · exact ⟨m, List.mem_append_right _ (List.mem_singleton.mpr rfl), rfl⟩

/-- A call is accepted for one definition only. -/
theorem StoreCall.Accepts.unique {before : List (StoreCall α)} {call : StoreCall α}
    {x y : Resolved α} (hx : call.Accepts before x) (hy : call.Accepts before y) : x = y := by
  cases hx <;> cases hy <;> rfl

section History

variable {calls before : List (StoreCall α)} {call : StoreCall α} {id : ApertureId}
  {x y : Resolved α}

/-- A definition comes after the calls before it. -/
theorem Definition.length_lt (h : Definition calls before x) : before.length < calls.length := by
  obtain ⟨call, after, rfl, -⟩ := h
  simp

/-- A definition is one of those before the last call or made by the last call. -/
theorem definition_concat :
    Definition (calls ++ [call]) before x ↔
      Definition calls before x ∨ before = calls ∧ call.Accepts calls x := by
  constructor
  · rintro ⟨call', after, hcalls, haccepts⟩
    rcases List.eq_nil_or_concat after with rfl | ⟨after, last, rfl⟩
    · obtain ⟨rfl, hcall⟩ := List.append_inj' hcalls rfl
      obtain rfl := List.head_eq_of_cons_eq hcall
      exact .inr ⟨rfl, haccepts⟩
    · have hshifted : calls ++ [call] = (before ++ call' :: after) ++ [last] := by
        simpa using hcalls
      exact .inl ⟨call', after, (List.append_inj' hshifted rfl).1, haccepts⟩
  · rintro (⟨call', after, rfl, haccepts⟩ | ⟨rfl, haccepts⟩)
    · exact ⟨call', after ++ [call], by simp, haccepts⟩
    · exact ⟨call, [], rfl, haccepts⟩

/-- A call that defines the id is the last definition of it. -/
theorem lastDefinition_concat_self (h : call.Accepts calls x) :
    LastDefinition (calls ++ [call]) x.id before y ↔ before = calls ∧ y = x := by
  have hlatest : Definition (calls ++ [call]) calls x := definition_concat.mpr (.inr ⟨rfl, h⟩)
  constructor
  · intro hy
    rcases definition_concat.mp hy.definition with hearlier | ⟨rfl, haccepts⟩
    · exact absurd (hy.last _ _ hlatest rfl) (Nat.not_le_of_lt hearlier.length_lt)
    · exact ⟨rfl, haccepts.unique h⟩
  · rintro ⟨rfl, rfl⟩
    refine ⟨hlatest, rfl, fun before' z hz _ => ?_⟩
    simpa [Nat.lt_succ_iff] using hz.length_lt

/-- A call that does not define the id leaves its last definition as it was. -/
theorem lastDefinition_concat_of_ne (h : ∀ z, call.Accepts calls z → z.id ≠ id) :
    LastDefinition (calls ++ [call]) id before y ↔ LastDefinition calls id before y := by
  have hearlier {before' : List (StoreCall α)} {z : Resolved α} (hid : z.id = id) :
      Definition (calls ++ [call]) before' z ↔ Definition calls before' z :=
    definition_concat.trans (or_iff_left fun hz => h z hz.2 hid)
  constructor
  · rintro ⟨hy, hid, hlast⟩
    exact ⟨(hearlier hid).mp hy, hid, fun _ z hz hz' => hlast _ z ((hearlier hz').mpr hz) hz'⟩
  · rintro ⟨hy, hid, hlast⟩
    exact ⟨(hearlier hid).mpr hy, hid, fun _ z hz hz' => hlast _ z ((hearlier hz').mp hz) hz'⟩

/-- There is only one last definition of an id. -/
theorem LastDefinition.unique {before' : List (StoreCall α)} (hx : LastDefinition calls id before x)
    (hy : LastDefinition calls id before' y) : before = before' ∧ x = y := by
  have hlength : before.length = before'.length :=
    Nat.le_antisymm (hy.last _ _ hx.definition hx.hasId) (hx.last _ _ hy.definition hy.hasId)
  obtain ⟨call, after, rfl, hcall⟩ := hx.definition
  obtain ⟨call', after', hcalls, hcall'⟩ := hy.definition
  obtain ⟨rfl, hsame⟩ := List.append_inj hcalls hlength
  obtain rfl := List.head_eq_of_cons_eq hsame
  exact ⟨rfl, hcall.unique hcall'⟩

end History

/-! ### The tables -/

/-- The aperture that an id stands for, if it is one. -/
def Resolved.aperture? : Resolved α → Option (ApertureDefinition α)
  | .aperture d => some d
  | .block _ => none

/-- The block that an id stands for, if it is one. -/
def Resolved.block? : Resolved α → Option (Block α)
  | .aperture _ => none
  | .block b => some b

/-- An id is looked up among the apertures when it stands for an aperture. -/
theorem Resolved.aperture?_eq_some {x : Resolved α} {d : ApertureDefinition α} :
    x.aperture? = some d ↔ x = .aperture d := by
  cases x <;> simp [aperture?]

/-- An id is looked up among the blocks when it stands for a block. -/
theorem Resolved.block?_eq_some {x : Resolved α} {b : Block α} :
    x.block? = some b ↔ x = .block b := by
  cases x <;> simp [block?]

namespace GraphicsState

/-- The state in which an aperture or a block has been defined. -/
def withDefinition (s : GraphicsState α) : Resolved α → GraphicsState α
  | .aperture d => s.withAperture d
  | .block b => s.defineBlock b

/-- After a definition the table of apertures has the new one under its id, or none for a block. -/
theorem apertures_withDefinition (s : GraphicsState α) (x : Resolved α) (id : ApertureId) :
    (s.withDefinition x).apertures[id]? = if x.id = id then x.aperture? else s.apertures[id]? := by
  by_cases hid : x.id = id <;> cases x <;>
    simp_all [withDefinition, withAperture, defineBlock, Std.TreeMap.getElem?_insert,
      Std.TreeMap.getElem?_erase, Resolved.id, Resolved.aperture?]

/-- After a definition the table of blocks has the new one under its id, or none for an aperture. -/
theorem blocks_withDefinition (s : GraphicsState α) (x : Resolved α) (id : ApertureId) :
    (s.withDefinition x).blocks[id]? = if x.id = id then x.block? else s.blocks[id]? := by
  by_cases hid : x.id = id <;> cases x <;>
    simp_all [withDefinition, withAperture, defineBlock, Std.TreeMap.getElem?_insert,
      Std.TreeMap.getElem?_erase, Resolved.id, Resolved.block?]

/-- A definition takes a snapshot of the attributes that are set. -/
theorem snapshots_withDefinition (s : GraphicsState α) (x : Resolved α) (id : ApertureId) :
    (s.withDefinition x).snapshots[id]? =
      if x.id = id then some s.attributes.aperture else s.snapshots[id]? := by
  by_cases hid : x.id = id <;> cases x <;>
    simp_all [withDefinition, withAperture, defineBlock, Std.TreeMap.getElem?_insert, Resolved.id]

/-- The tables of two states are the same. -/
structure SameStore (s s' : GraphicsState α) : Prop where
  apertures : s'.apertures = s.apertures
  blocks : s'.blocks = s.blocks
  snapshots : s'.snapshots = s.snapshots

end GraphicsState

/-- An entry under an id tells something of its last definition, or is missing if there is none
that it could tell this of. -/
def Tells {β : Type} (calls : List (StoreCall α)) (id : ApertureId)
    (tell : List (StoreCall α) → Resolved α → Option β) (entry : Option β) : Prop :=
  ∀ v, entry = some v ↔ ∃ before x, LastDefinition calls id before x ∧ tell before x = some v

/-- The tables of a state are those that the calls lead to. -/
structure Remembers (calls : List (StoreCall α)) (s : GraphicsState α) : Prop where
  macros (name : String) : name ∈ s.macros ↔ DefinesMacro calls name
  table : s.attributes.aperture = tableAfter calls
  aperture (id : ApertureId) : Tells calls id (fun _ x => x.aperture?) s.apertures[id]?
  block (id : ApertureId) : Tells calls id (fun _ x => x.block?) s.blocks[id]?
  snapshot (id : ApertureId) :
    Tells calls id (fun before _ => some (tableAfter before)) s.snapshots[id]?

/-! ### One call -/

namespace StoreCall

/-- Aperture attributes are changed only by the calls that set and delete attributes. -/
theorem table_apply (call : StoreCall α) (s : GraphicsState α) :
    (call.apply s).state.attributes.aperture = call.onTable s.attributes.aperture := by
  cases call with
  | defineAperture d =>
      obtain ⟨-, hdefined⟩ | ⟨name, parameters, -, -, hfailed⟩ :=
        GraphicsState.defineAperture_cases d s
      · rw [apply, hdefined]
        rfl
      · rw [apply, hfailed]
        rfl
  | setAttribute kind a => cases kind <;> rfl
  | deleteAttribute name => cases name <;> rfl
  | defineBlock b | defineMacro m => rfl

/-- A macro is known after a call if it was before or if the call defines it. -/
theorem mem_macros_apply {call : StoreCall α} {s : GraphicsState α} {name : String} :
    name ∈ (call.apply s).state.macros ↔
      name ∈ s.macros ∨ ∃ m, call = .defineMacro m ∧ m.name = name := by
  cases call with
  | defineAperture d =>
      obtain ⟨-, hdefined⟩ | ⟨_, _, -, -, hfailed⟩ := GraphicsState.defineAperture_cases d s
      · simp [apply, hdefined, GraphicsState.withAperture]
      · simp [apply, hfailed]
  | defineMacro m =>
      simp [apply, Action.modify, GraphicsState.defineMacro, Std.TreeMap.mem_insert, or_comm]
  | defineBlock b => simp [apply, Action.modify, GraphicsState.defineBlock]
  | setAttribute kind a => simp [apply, Action.modify, GraphicsState.setAttribute]
  | deleteAttribute name => simp [apply, Action.modify, GraphicsState.deleteAttribute]

end StoreCall

section Tells

variable {β : Type} {calls : List (StoreCall α)} {call : StoreCall α} {id : ApertureId}
  {tell : List (StoreCall α) → Resolved α → Option β} {entry : Option β} {x : Resolved α}

/-- A definition replaces the entry of its id, and no other one. -/
theorem Tells.of_accepts (h : Tells calls id tell entry) (haccepts : call.Accepts calls x) :
    Tells (calls ++ [call]) id tell (if x.id = id then tell calls x else entry) := by
  intro v
  split
  case isTrue hid =>
    subst hid
    simp [lastDefinition_concat_self haccepts]
  case isFalse hid =>
    have hother (z : Resolved α) (hz : call.Accepts calls z) : z.id ≠ id :=
      hz.unique haccepts ▸ hid
    simp only [lastDefinition_concat_of_ne hother, h v]

/-- A call that defines nothing leaves every entry alone. -/
theorem Tells.of_not_accepts (h : Tells calls id tell entry)
    (hnone : ∀ z, ¬ call.Accepts calls z) : Tells (calls ++ [call]) id tell entry := by
  intro v
  simp only [lastDefinition_concat_of_ne fun z hz => absurd hz (hnone z), h v]

end Tells

namespace Remembers

variable {calls : List (StoreCall α)} {s : GraphicsState α}

/-- The macro of an aperture is known when one of the calls has defined it. -/
theorem hasMacro_iff (h : Remembers calls s) (d : ApertureDefinition α) :
    s.HasMacro d ↔ ∀ name parameters, d.template = .macroCall name parameters →
      DefinesMacro calls name := by
  simp only [GraphicsState.HasMacro, h.macros]

/-- What a call does to the tables: it puts a definition there, or leaves them alone. -/
theorem apply_cases (h : Remembers calls s) (call : StoreCall α) :
    (∃ x, call.Accepts calls x ∧ (call.apply s).state = s.withDefinition x) ∨
      (∀ x, ¬ call.Accepts calls x) ∧ s.SameStore (call.apply s).state := by
  cases call with
  | defineAperture d =>
      obtain ⟨hhas, hdefined⟩ | ⟨name, parameters, htemplate, hmissing, hfailed⟩ :=
        GraphicsState.defineAperture_cases d s
      · refine .inl ⟨.aperture d, .aperture ((h.hasMacro_iff d).mp hhas), ?_⟩
        rw [StoreCall.apply, hdefined]
        rfl
      · rw [StoreCall.apply, hfailed]
        refine .inr ⟨?_, ⟨rfl, rfl, rfl⟩⟩
        rintro x ⟨hdefined⟩
        exact hmissing ((h.macros name).mpr (hdefined name parameters htemplate))
  | defineBlock b => exact .inl ⟨.block b, .block b, rfl⟩
  | defineMacro m => exact .inr ⟨nofun, ⟨rfl, rfl, rfl⟩⟩
  | setAttribute kind a => exact .inr ⟨nofun, ⟨rfl, rfl, rfl⟩⟩
  | deleteAttribute name => exact .inr ⟨nofun, ⟨rfl, rfl, rfl⟩⟩

/-- **One more call** is remembered. -/
theorem apply (h : Remembers calls s) (call : StoreCall α) :
    Remembers (calls ++ [call]) (call.apply s).state := by
  have hmacros (name : String) :
      name ∈ (call.apply s).state.macros ↔ DefinesMacro (calls ++ [call]) name := by
    rw [StoreCall.mem_macros_apply, definesMacro_concat, h.macros]
  have htable : (call.apply s).state.attributes.aperture = tableAfter (calls ++ [call]) := by
    rw [StoreCall.table_apply, tableAfter_concat, h.table]
  obtain ⟨x, haccepts, hstate⟩ | ⟨hnone, hsame⟩ := h.apply_cases call
  · refine ⟨hmacros, htable, fun id => ?_, fun id => ?_, fun id => ?_⟩
    · rw [hstate, s.apertures_withDefinition]
      exact (h.aperture id).of_accepts haccepts
    · rw [hstate, s.blocks_withDefinition]
      exact (h.block id).of_accepts haccepts
    · rw [hstate, s.snapshots_withDefinition, h.table]
      exact (h.snapshot id).of_accepts haccepts
  · refine ⟨hmacros, htable, fun id => ?_, fun id => ?_, fun id => ?_⟩
    · rw [hsame.apertures]
      exact (h.aperture id).of_not_accepts hnone
    · rw [hsame.blocks]
      exact (h.block id).of_not_accepts hnone
    · rw [hsame.snapshots]
      exact (h.snapshot id).of_not_accepts hnone

/-- The table of apertures holds the last definitions that are apertures. -/
theorem getElem?_apertures (h : Remembers calls s) {id : ApertureId} {d : ApertureDefinition α} :
    s.apertures[id]? = some d ↔ ∃ before, LastDefinition calls id before (.aperture d) := by
  rw [h.aperture id d]
  constructor
  · rintro ⟨before, x, hlast, htell⟩
    obtain rfl := Resolved.aperture?_eq_some.mp htell
    exact ⟨before, hlast⟩
  · rintro ⟨before, hlast⟩
    exact ⟨before, _, hlast, rfl⟩

/-- The table of blocks holds the last definitions that are blocks. -/
theorem getElem?_blocks (h : Remembers calls s) {id : ApertureId} {b : Block α} :
    s.blocks[id]? = some b ↔ ∃ before, LastDefinition calls id before (.block b) := by
  rw [h.block id b]
  constructor
  · rintro ⟨before, x, hlast, htell⟩
    obtain rfl := Resolved.block?_eq_some.mp htell
    exact ⟨before, hlast⟩
  · rintro ⟨before, hlast⟩
    exact ⟨before, _, hlast, rfl⟩

/-- The attributes of an id are those that were set at its last definition. -/
theorem attributesOf_eq_some (h : Remembers calls s) (id : ApertureId) (t : AttributeTable) :
    s.attributesOf id = some t ↔
      ∃ before x, LastDefinition calls id before x ∧ t = tableAfter before := by
  rw [GraphicsState.attributesOf, h.snapshot id t]
  simp only [Option.some.injEq, eq_comm]

/-- An id does not stand for an aperture and a block. -/
theorem not_mem_both (h : Remembers calls s) (id : ApertureId) :
    ¬ (id ∈ s.apertures ∧ id ∈ s.blocks) := by
  rintro ⟨haperture, hblock⟩
  obtain ⟨d, hd⟩ := Option.isSome_iff_exists.mp
    (Std.TreeMap.mem_iff_isSome_getElem?.mp haperture)
  obtain ⟨b, hb⟩ := Option.isSome_iff_exists.mp (Std.TreeMap.mem_iff_isSome_getElem?.mp hblock)
  obtain ⟨before, hd⟩ := h.getElem?_apertures.mp hd
  obtain ⟨before', hb⟩ := h.getElem?_blocks.mp hb
  cases (hd.unique hb).2

/-- What an id stands for is found in one of the two tables, if it was ever defined. -/
theorem resolve_cases (h : Remembers calls s) (id : ApertureId) :
    (∃ before x, LastDefinition calls id before x ∧ s.resolve id = .ok x) ∨
      (∀ before x, ¬ LastDefinition calls id before x) ∧
        s.resolve id = .error (.apertureNotFound id) := by
  rw [GraphicsState.resolve]
  cases haperture : s.apertures[id]? with
  | some d =>
      obtain ⟨before, hlast⟩ := h.getElem?_apertures.mp haperture
      exact .inl ⟨before, .aperture d, hlast, rfl⟩
  | none =>
  cases hblock : s.blocks[id]? with
  | some b =>
      obtain ⟨before, hlast⟩ := h.getElem?_blocks.mp hblock
      exact .inl ⟨before, .block b, hlast, rfl⟩
  | none =>
      refine .inr ⟨fun before x hlast => ?_, rfl⟩
      cases x with
      | aperture d => cases haperture.symm.trans (h.getElem?_apertures.mpr ⟨before, hlast⟩)
      | block b => cases hblock.symm.trans (h.getElem?_blocks.mpr ⟨before, hlast⟩)

/-- An id stands for what was last defined under it. -/
theorem resolve_eq_ok (h : Remembers calls s) (id : ApertureId) (x : Resolved α) :
    s.resolve id = .ok x ↔ ∃ before, LastDefinition calls id before x := by
  obtain ⟨before, y, hlast, hresolve⟩ | ⟨hnone, hresolve⟩ := h.resolve_cases id
  · rw [hresolve]
    constructor
    · intro hx
      obtain rfl : y = x := Except.ok.inj hx
      exact ⟨before, hlast⟩
    · rintro ⟨before', hx⟩
      rw [(hlast.unique hx).2]
  · rw [hresolve]
    exact ⟨nofun, fun ⟨before, hlast⟩ => absurd hlast (hnone before x)⟩

/-- An id stands for nothing if it was never defined. -/
theorem resolve_eq_error (h : Remembers calls s) (id : ApertureId) (e : Error) :
    s.resolve id = .error e ↔
      (∀ before x, ¬ LastDefinition calls id before x) ∧ e = .apertureNotFound id := by
  obtain ⟨before, y, hlast, hresolve⟩ | ⟨hnone, hresolve⟩ := h.resolve_cases id
  · rw [hresolve]
    exact ⟨nofun, fun ⟨hnone, _⟩ => absurd hlast (hnone before y)⟩
  · rw [hresolve]
    exact ⟨fun he => ⟨hnone, (Except.error.inj he).symm⟩, fun ⟨_, he⟩ => he ▸ rfl⟩

/-- A call fails only for a macro that it lacks, and then changes nothing. -/
theorem apply_eq_error (h : Remembers calls s) (call : StoreCall α) (e : Error) :
    (call.apply s).result = .error e ↔
      ∃ name, call.Rejects calls name ∧ e = .macroNotDefined name ∧ (call.apply s).state = s := by
  cases call with
  | defineAperture d =>
      obtain ⟨hhas, hdefined⟩ | ⟨name, parameters, htemplate, hmissing, hfailed⟩ :=
        GraphicsState.defineAperture_cases d s
      · rw [StoreCall.apply, hdefined]
        refine ⟨nofun, ?_⟩
        rintro ⟨name, ⟨htemplate, hundefined⟩, -⟩
        exact absurd ((h.hasMacro_iff d).mp hhas _ _ htemplate) hundefined
      · rw [StoreCall.apply, hfailed]
        constructor
        · intro he
          refine ⟨name, ⟨htemplate, ?_⟩, (Except.error.inj he).symm, rfl⟩
          exact fun hdefines => hmissing ((h.macros name).mpr hdefines)
        · rintro ⟨name', ⟨htemplate', -⟩, rfl, -⟩
          obtain ⟨rfl, -⟩ := Template.macroCall.inj (htemplate.symm.trans htemplate')
          rfl
  | defineBlock b => exact ⟨nofun, nofun⟩
  | defineMacro m => exact ⟨nofun, nofun⟩
  | setAttribute kind a => exact ⟨nofun, nofun⟩
  | deleteAttribute name => exact ⟨nofun, nofun⟩

end Remembers

/-! ### All calls -/

namespace StoreCall

variable [Scalar α]

/-- The initial state remembers that there were no calls. -/
theorem remembers_initial : Remembers [] (GraphicsState.initial : GraphicsState α) := by
  have hnone (id : ApertureId) (before : List (StoreCall α)) (x : Resolved α) :
      ¬ LastDefinition [] id before x := fun h => Nat.not_lt_zero _ h.definition.length_lt
  refine ⟨fun name => ?_, rfl, fun id d => ?_, fun id b => ?_, fun id t => ?_⟩
  · simp [GraphicsState.initial, DefinesMacro]
  all_goals simp [GraphicsState.initial, hnone]

/-- **All calls** are remembered, whichever of them fail. -/
theorem remembers_applyAll (calls : List (StoreCall α)) :
    Remembers calls (applyAll calls .initial) := by
  induction calls using List.reverseRecOn with
  | nil => exact remembers_initial
  | append_singleton calls call ih =>
      rw [applyAll_concat]
      exact ih.apply call

/-- **The last definition wins.** After any calls, an id is not both an aperture and a block. It
stands for what was last defined under it, of whichever kind, and its attributes are those that were
set at that time, which depend only on the calls before that set and delete attributes. A call fails
only for a macro that is not defined, and then changes nothing. -/
theorem last_definition_wins (calls : List (StoreCall α)) :
    let s : GraphicsState α := applyAll calls .initial
    (∀ id, ¬ (id ∈ s.apertures ∧ id ∈ s.blocks)) ∧
    (∀ id x, s.resolve id = .ok x ↔ ∃ before, LastDefinition calls id before x) ∧
    (∀ id e, s.resolve id = .error e ↔
      (∀ before x, ¬ LastDefinition calls id before x) ∧ e = .apertureNotFound id) ∧
    (∀ id t, s.attributesOf id = some t ↔
      ∃ before x, LastDefinition calls id before x ∧ t = tableAfter before) ∧
    s.attributes.aperture = tableAfter calls ∧
    ∀ (call : StoreCall α) (e : Error), (call.apply s).result = .error e ↔
      ∃ name, call.Rejects calls name ∧ e = .macroNotDefined name ∧ (call.apply s).state = s := by
  intro s
  have h : Remembers calls s := remembers_applyAll calls
  exact ⟨h.not_mem_both, h.resolve_eq_ok, h.resolve_eq_error, h.attributesOf_eq_some, h.table,
    h.apply_eq_error⟩

end StoreCall

end Photoplot
