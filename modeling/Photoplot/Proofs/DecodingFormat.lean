import Mathlib.Data.List.Induction
import Photoplot.GraphicsState
import Photoplot.Proofs.Refinement
import Photoplot.Scalar.Double

/-!
# The Format That Coordinates Are Read With

A coordinate has no meaning without its format, so all coordinates of a run must be read with the
same one. The graphics state may be given a format as often as one likes, and the format is
**fixed** by the first operation whose coordinates are read with it. This module follows the calls
that set the format, read coordinates and move the current point, in any order, also those that
fail.

## Reading convention

An operation **reads** when it has coordinates and all of them can be read. One without coordinates
needs no format and fixes none, and neither does one that fails, even if its first coordinates could
be read.

## Main definitions

* `CoordinateCall`, `CoordinateCall.applyAll`: calls, and the state after calls in order.
* `CoordinateCall.Reads`, `CoordinateCall.HasRead`: a call reads, and one of several calls has.
* `GraphicsState.FixedTo`: the format is fixed, and which one it is.

## Main results

* `GraphicsState.setFormat_cases`, `GraphicsState.load_cases`: all that the two calls can do.
* `CoordinateCall.fixedTo_applyAll`: a format that is fixed stays so, by induction on the calls.
* `CoordinateCall.reads_with_one_format`: one format for all coordinates of a run.
-/

namespace Photoplot

variable {α : Type}

namespace GraphicsState

/-- The format is in use, and it is `f`. -/
structure FixedTo (f : CoordinateFormat) (s : GraphicsState α) : Prop where
  inUse : s.formatInUse = true
  format : s.format = some f

/-- A state is fixed to one format only. -/
theorem FixedTo.unique {f g : CoordinateFormat} {s : GraphicsState α} (hf : s.FixedTo f)
    (hg : s.FixedTo g) : f = g :=
  Option.some.inj (hf.format.symm.trans hg.format)

/-- **A format is set**, or another one is in use and nothing changes. -/
theorem setFormat_cases (f : CoordinateFormat) (s : GraphicsState α) :
    (¬ (s.formatInUse = true ∧ s.format ≠ some f) ∧
        setFormat f s = ⟨.ok (), { s with format := some f }, []⟩) ∨
      (s.formatInUse = true ∧ s.format ≠ some f) ∧
        setFormat f s = ⟨.error .formatRedefined, s, []⟩ := by
  rw [setFormat, Action.get_bind]
  by_cases hother : s.formatInUse = true ∧ s.format ≠ some f
  · rw [if_pos (by simpa using hother)]
    exact .inr ⟨hother, rfl⟩
  · rw [if_neg (by simpa using hother)]
    exact .inl ⟨hother, rfl⟩

variable [Scalar α]

/-- **Coordinates are read** into `pending`, and then the format is in use. Without coordinates,
or when they cannot be read, `pending` is emptied and nothing else changes. -/
theorem load_cases (c : Coordinates) (s : GraphicsState α) :
    (c.isEmpty = true ∧ load c s = ⟨.ok (), { s with pending := {} }, []⟩) ∨
      (c.isEmpty = false ∧ ∃ f pending, s.format = some f ∧ unpackAll f c = .ok pending ∧
        load c s = ⟨.ok (), { s with pending, formatInUse := true }, []⟩) ∨
      c.isEmpty = false ∧ ∃ e, load c s = ⟨.error e, { s with pending := {} }, []⟩ := by
  cases hempty : c.isEmpty with
  | true =>
      refine .inl ⟨rfl, ?_⟩
      simp only [load, hempty]
      rfl
  | false =>
      refine .inr ?_
      cases hformat : s.format with
      | none =>
          refine .inr ⟨rfl, .formatNotSet, ?_⟩
          simp only [load, hempty]
          simp [Action.modify, Action.get, Action.fail, hformat, bind, Action.bind]
      | some f =>
          cases hunpack : unpackAll (α := α) f c with
          | error x =>
              refine .inr ⟨rfl, .coordinate x, ?_⟩
              simp only [load, hempty]
              simp [Action.modify, Action.get, Action.ofExcept, hformat, hunpack, bind,
                Action.bind, Except.mapError]
          | ok pending =>
              refine .inl ⟨rfl, f, pending, rfl, hunpack, ?_⟩
              simp only [load, hempty]
              simp [Action.modify, Action.get, Action.ofExcept, hformat, hunpack, bind,
                Action.bind, Except.mapError]

end GraphicsState

/-! ### Calls -/

/-- A call that concerns how coordinates are read. -/
inductive CoordinateCall where
  | setFormat (f : CoordinateFormat)
  | load (c : Coordinates)
  | commit

namespace CoordinateCall

variable [Scalar α]

/-- Makes a call. -/
def apply : CoordinateCall → Action (GraphicsState α) Unit
  | setFormat f => GraphicsState.setFormat f
  | load c => GraphicsState.load c
  | commit => Action.modify GraphicsState.commit

/-- The state after calls in order. A call that fails does not keep the others from being made. -/
def applyAll (calls : List CoordinateCall) (s : GraphicsState α) : GraphicsState α :=
  calls.foldl (fun s call => (call.apply s).state) s

/-- Calls may be made in one go or in two. -/
theorem applyAll_append (calls calls' : List CoordinateCall) (s : GraphicsState α) :
    applyAll (calls ++ calls') s = applyAll calls' (applyAll calls s) := by
  simp [applyAll]

/-- The first call is made before the others. -/
theorem applyAll_cons (call : CoordinateCall) (calls : List CoordinateCall)
    (s : GraphicsState α) : applyAll (call :: calls) s = applyAll calls (call.apply s).state :=
  rfl

/-- A call reads coordinates from a state. -/
def Reads (call : CoordinateCall) (s : GraphicsState α) : Prop :=
  ∃ c, call = .load c ∧ c.isEmpty = false ∧ (call.apply s).result = .ok ()

/-- One of the calls from a state has read coordinates. -/
def HasRead (s : GraphicsState α) (calls : List CoordinateCall) : Prop :=
  ∃ before call after, calls = before ++ call :: after ∧ call.Reads (applyAll before s)

/-- What has been read stays read whatever calls follow. -/
theorem HasRead.append {s : GraphicsState α} {calls : List CoordinateCall} (h : HasRead s calls)
    (calls' : List CoordinateCall) : HasRead s (calls ++ calls') := by
  obtain ⟨before, call, after, rfl, hreads⟩ := h
  exact ⟨before, call, after ++ calls', by simp, hreads⟩

/-! ### One call -/

variable {call : CoordinateCall} {s : GraphicsState α} {f : CoordinateFormat}

/-- **A call that reads** does so with the format of the state, which is fixed from then on. -/
theorem Reads.exists_fixedTo (h : call.Reads s) :
    ∃ f c, s.format = some f ∧ (call.apply s).state.FixedTo f ∧ call = .load c ∧
      GraphicsState.unpackAll f c = .ok (call.apply s).state.pending := by
  obtain ⟨c, rfl, hgiven, hok⟩ := h
  obtain ⟨hempty, -⟩ | ⟨-, f, pending, hformat, hunpack, hload⟩ | ⟨-, e, hload⟩ :=
    GraphicsState.load_cases c s
  · rw [hgiven] at hempty
    cases hempty
  · rw [apply, hload]
    exact ⟨f, c, hformat, ⟨rfl, hformat⟩, rfl, hunpack⟩
  · rw [apply, hload] at hok
    cases hok

/-- **A fixed format** stays what it is. -/
theorem fixedTo_apply (h : s.FixedTo f) (call : CoordinateCall) :
    (call.apply s).state.FixedTo f := by
  cases call with
  | setFormat g =>
      obtain ⟨hsame, hset⟩ | ⟨-, hset⟩ := GraphicsState.setFormat_cases g s
      · have hg : s.format = some g := by
          by_contra hother
          exact hsame ⟨h.inUse, hother⟩
        rw [apply, hset]
        exact ⟨h.inUse, hg ▸ h.format⟩
      · rw [apply, hset]
        exact h
  | load c =>
      obtain ⟨-, hload⟩ | ⟨-, g, pending, -, -, hload⟩ | ⟨-, e, hload⟩ :=
        GraphicsState.load_cases c s
      · rw [apply, hload]
        exact ⟨h.inUse, h.format⟩
      · rw [apply, hload]
        exact ⟨rfl, h.format⟩
      · rw [apply, hload]
        exact ⟨h.inUse, h.format⟩
  | commit => exact ⟨h.inUse, h.format⟩

/-- Only a call that reads takes the format into use. -/
theorem formatInUse_apply :
    (call.apply s).state.formatInUse = true ↔ s.formatInUse = true ∨ call.Reads s := by
  cases call with
  | setFormat g =>
      have hnever : ¬ Reads (.setFormat g) s := by rintro ⟨c, hc, -⟩; cases hc
      obtain ⟨-, hset⟩ | ⟨-, hset⟩ := GraphicsState.setFormat_cases g s <;>
        rw [apply, hset, or_iff_left hnever]
  | load c =>
      obtain ⟨hempty, hload⟩ | ⟨hgiven, g, pending, -, -, hload⟩ | ⟨-, e, hload⟩ :=
        GraphicsState.load_cases c s
      · have hnever : ¬ Reads (.load c) s := by
          rintro ⟨c', hc, hgiven, -⟩
          cases hc
          rw [hempty] at hgiven
          cases hgiven
        rw [apply, hload, or_iff_left hnever]
      · have hreads : Reads (.load c) s := ⟨c, rfl, hgiven, by rw [apply, hload]⟩
        rw [apply, hload]
        exact iff_of_true rfl (.inr hreads)
      · have hnever : ¬ Reads (.load c) s := by
          rintro ⟨c', -, -, hok⟩
          rw [apply, hload] at hok
          cases hok
        rw [apply, hload, or_iff_left hnever]
  | commit =>
      have hnever : ¬ Reads .commit s := by rintro ⟨c, hc, -⟩; cases hc
      exact (or_iff_left hnever).symm

/-- **Setting a format** fails if and only if another one is fixed, and then changes nothing. -/
theorem apply_setFormat {read : Prop} (hinUse : s.formatInUse = true ↔ read)
    (hfixed : read → s.FixedTo f) (g : CoordinateFormat) :
    ((∃ e, (apply (.setFormat g) s).result = .error e) ↔ read ∧ g ≠ f) ∧
      (∀ e, (apply (.setFormat g) s).result = .error e →
        e = .formatRedefined ∧ (apply (.setFormat g) s).state = s) ∧
      ((apply (.setFormat g) s).result = .ok () →
        (apply (.setFormat g) s).state = { s with format := some g }) := by
  rw [apply]
  obtain ⟨hsame, hset⟩ | ⟨⟨hused, hother⟩, hset⟩ := GraphicsState.setFormat_cases g s
  · rw [hset]
    refine ⟨iff_of_false nofun ?_, nofun, fun _ => rfl⟩
    rintro ⟨hread, hne⟩
    refine hsame ⟨hinUse.mpr hread, fun hg => hne ?_⟩
    exact Option.some.inj (hg.symm.trans (hfixed hread).format)
  · have hread : read := hinUse.mp hused
    have hne : g ≠ f := by
      rintro rfl
      exact hother (hfixed hread).format
    rw [hset]
    refine ⟨iff_of_true ⟨_, rfl⟩ ⟨hread, hne⟩, fun e he => ?_, nofun⟩
    exact ⟨(Except.error.inj he).symm, rfl⟩

/-- An operation whose coordinates cannot be read empties the pending ones. -/
theorem state_apply_load_of_error {c : Coordinates} {e : Error}
    (h : (apply (.load c) s).result = .error e) :
    (apply (.load c) s).state = { s with pending := {} } := by
  rw [apply] at h ⊢
  obtain ⟨-, hload⟩ | ⟨-, g, pending, -, -, hload⟩ | ⟨-, e', hload⟩ :=
    GraphicsState.load_cases c s
  · rw [hload] at h
    cases h
  · rw [hload] at h
    cases h
  · rw [hload]

/-! ### All calls -/

/-- **A fixed format** stays what it is through any calls. -/
theorem fixedTo_applyAll (h : s.FixedTo f) (calls : List CoordinateCall) :
    (applyAll calls s).FixedTo f := by
  induction calls generalizing s with
  | nil => exact h
  | cons call rest ih => exact ih (fixedTo_apply h call)

/-- The format is in use if and only if coordinates have been read. -/
theorem formatInUse_applyAll (hfresh : s.formatInUse = false) (calls : List CoordinateCall) :
    (applyAll calls s).formatInUse = true ↔ HasRead s calls := by
  induction calls using List.reverseRecOn with
  | nil =>
      refine iff_of_false (by simp [applyAll, hfresh]) ?_
      rintro ⟨before, call, after, hcalls, -⟩
      simp at hcalls
  | append_singleton calls call ih =>
      rw [applyAll_append, applyAll_cons]
      refine formatInUse_apply.trans ?_
      rw [ih]
      constructor
      · rintro (hread | hreads)
        · exact hread.append [call]
        · exact ⟨calls, call, [], rfl, hreads⟩
      · rintro ⟨before, call', after, hcalls, hreads⟩
        obtain rfl | ⟨after, last, rfl⟩ := List.eq_nil_or_concat after
        · obtain ⟨rfl, hcall⟩ := List.append_inj' hcalls rfl
          cases hcall
          exact .inr hreads
        · have hshifted : calls ++ [call] = (before ++ call' :: after) ++ [last] := by
            simpa using hcalls
          exact .inl ⟨before, call', after, (List.append_inj' hshifted rfl).1, hreads⟩

/-- **Once coordinates have been read** the format is fixed, to the one that all calls read with. -/
theorem exists_fixedTo (s : GraphicsState α) (calls : List CoordinateCall) :
    ∃ f, ∀ before after, calls = before ++ after → HasRead s before →
      (applyAll before s).FixedTo f := by
  by_cases hread : HasRead s calls
  · -- the format at the end is the one that was fixed at any time before
    have hfixed {before : List CoordinateCall} (h : HasRead s before) :
        ∃ f, (applyAll before s).FixedTo f := by
      obtain ⟨earlier, call, later, rfl, hreads⟩ := h
      obtain ⟨f, -, -, hnow, -⟩ := hreads.exists_fixedTo
      rw [applyAll_append, applyAll_cons]
      exact ⟨f, fixedTo_applyAll hnow later⟩
    obtain ⟨f, hlast⟩ := hfixed hread
    refine ⟨f, fun before after hcalls hbefore => ?_⟩
    obtain ⟨g, hg⟩ := hfixed hbefore
    have hkept : (applyAll calls s).FixedTo g := by
      rw [hcalls, applyAll_append]
      exact fixedTo_applyAll hg after
    exact hlast.unique hkept ▸ hg
  · refine ⟨⟨.leading, .absolute, ⟨0, 0⟩, ⟨0, 0⟩⟩, fun before after hcalls hbefore => ?_⟩
    exact absurd (hcalls ▸ hbefore.append after) hread

/-- **One format for all coordinates.** However calls follow on each other, from a state in which no
coordinate has been read yet, there is one format for all of them. A call that reads leaves what its
coordinates are under this format. Once coordinates have been read, the format is this one before
and after every call. Setting a format fails if and only if it is another one and coordinates have
been read, and then it changes nothing; otherwise it changes the format only. A failing operation
changes nothing but that it empties the pending coordinates. -/
theorem reads_with_one_format (s₀ : GraphicsState α) (hfresh : s₀.formatInUse = false)
    (calls : List CoordinateCall) :
    ∃ f, ∀ before call after, calls = before ++ call :: after →
      let s := applyAll before s₀
      let step := call.apply s
      (call.Reads s → s.format = some f ∧ ∃ c, call = .load c ∧
        GraphicsState.unpackAll f c = .ok step.state.pending) ∧
      (HasRead s₀ before → s.format = some f ∧ step.state.format = some f) ∧
      (∀ g, call = .setFormat g →
        ((∃ e, step.result = .error e) ↔ HasRead s₀ before ∧ g ≠ f) ∧
        (∀ e, step.result = .error e → e = .formatRedefined ∧ step.state = s) ∧
        (step.result = .ok () → step.state = { s with format := some g })) ∧
      ∀ c e, call = .load c → step.result = .error e →
        step.state = { s with pending := {} } := by
  obtain ⟨f, hf⟩ := exists_fixedTo s₀ calls
  refine ⟨f, fun before call after hcalls => ?_⟩
  intro s step
  have hinUse : s.formatInUse = true ↔ HasRead s₀ before := formatInUse_applyAll hfresh before
  have hfixed (h : HasRead s₀ before) : s.FixedTo f := hf before (call :: after) hcalls h
  refine ⟨fun hreads => ?_, fun hread => ?_, ?_, ?_⟩
  · obtain ⟨g, c, hformat, hnow, hcall, hunpack⟩ := hreads.exists_fixedTo
    have hsoon : (applyAll (before ++ [call]) s₀).FixedTo f :=
      hf _ after (by simpa using hcalls) ⟨before, call, [], rfl, hreads⟩
    rw [applyAll_append, applyAll_cons] at hsoon
    obtain rfl : g = f := hnow.unique hsoon
    exact ⟨hformat, c, hcall, hunpack⟩
  · exact ⟨(hfixed hread).format, (fixedTo_apply (hfixed hread) call).format⟩
  · rintro g rfl
    exact apply_setFormat hinUse hfixed g
  · rintro c e rfl hfails
    exact state_apply_load_of_error hfails

/-- A format is given, another one takes its place before anything is read, an operation fails on
its second coordinate, and then one is read. -/
def readingCalls : List CoordinateCall :=
  [.setFormat ⟨.leading, .absolute, ⟨3, 5⟩, ⟨3, 5⟩⟩, .load ⟨none, none, none, none⟩,
    .load ⟨some "5", some "?", none, none⟩, .setFormat ⟨.leading, .absolute, ⟨2, 4⟩, ⟨2, 4⟩⟩,
    .load ⟨some "5", none, none, none⟩, .commit]

/-- After all this the first format is refused. -/
theorem refused_after_readingCalls :
    (GraphicsState.initial : GraphicsState Float).formatInUse = false ∧
      ∃ e, (apply (.setFormat ⟨.leading, .absolute, ⟨3, 5⟩, ⟨3, 5⟩⟩)
        (applyAll readingCalls (.initial : GraphicsState Float))).result = .error e := by
  refine ⟨rfl, ?_⟩
  obtain ⟨f, hf⟩ := reads_with_one_format (.initial : GraphicsState Float) rfl
    (readingCalls ++ [.setFormat ⟨.leading, .absolute, ⟨3, 5⟩, ⟨3, 5⟩⟩])
  obtain ⟨-, hfixed, hset, -⟩ := hf readingCalls _ [] rfl
  have hread : HasRead (.initial : GraphicsState Float) readingCalls :=
    ⟨readingCalls.take 4, .load ⟨some "5", none, none, none⟩, [.commit], rfl, _, rfl, rfl, rfl⟩
  obtain rfl : ⟨.leading, .absolute, ⟨2, 4⟩, ⟨2, 4⟩⟩ = f := Option.some.inj (hfixed hread).1
  exact (hset _ rfl).1.mpr ⟨hread, by decide⟩

end CoordinateCall

end Photoplot
