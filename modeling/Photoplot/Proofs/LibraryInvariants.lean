import Photoplot.Proofs.ComposerInlines
import Photoplot.Proofs.MomentInvariants

/-!
# Invariants of Libraries

The library changes in three ways only: an aperture or a block is defined, an aperture without
geometry is removed, and variants are built. An invariant of libraries may depend on the ids that
are still to be defined, of which every definition uses one up. What these changes keep holds of the
library at every moment of a run.

## Main definitions

* `Library.Accrues`: an invariant that the changes of a library keep.

## Main results

* `Library.Accrues.refines_receiver`: what each callback does to the library.
* `Library.Accrues.holds_moment`: all moments of a run.
-/

namespace Photoplot

variable {α : Type} [Scalar α] [Legible α]

/-- An invariant of libraries **accrues** while pending ids are defined: it does not care about the
order of the pending ids and allows that some of them are never defined, a definition or a removal
uses an id up, and variants make no difference. -/
structure Library.Accrues (I : List ApertureId → Library α → Prop) : Prop where
  fewer {pending pending' : List ApertureId} {lib : Library α} :
    I pending lib → pending'.Subperm pending → I pending' lib
  define {id : ApertureId} {pending : List ApertureId} {lib : Library α} {l : Layer α} :
    I (id :: pending) lib → l.id = .ofAperture id → I pending (lib.revise (.define l))
  remove {id : ApertureId} {pending : List ApertureId} {lib : Library α} :
    I (id :: pending) lib → I pending (lib.revise (.remove (.ofAperture id)))
  variant (pending : List ApertureId) (t : Transform α) (base : LayerId) :
    Action.Keeps (I pending) (Library.variant t base)

namespace Library.Accrues

open Composer

variable {I : List ApertureId → Library α → Prop} {bodies : List (Option ApertureId)}
  {fresh pending : List ApertureId}

omit [Scalar α] [Legible α] in
/-- Drawing does not change the library. -/
theorem steady_library : Steady (fun c : Composer α => I pending c.toLibrary) where
  shapes _ _ h := h
  contour _ _ _ h := h

omit [Scalar α] [Legible α] in
/-- A contour does not change the library. -/
theorem keeps_library_setContour (f : Composer α → Option (Contour α)) :
    Action.Keeps (fun c : Composer α => I pending c.toLibrary)
      (Action.modify fun c => { c with contour := f c }) :=
  Action.Keeps.modify fun _ h => h

/-- A fresh id is one of the pending ids. -/
theorem of_fresh (hI : Accrues I) {id : ApertureId} {lib : Library α}
    (h : I (pendingIds bodies (id :: fresh)) lib) : I (id :: pendingIds bodies fresh) lib :=
  hI.fewer h List.perm_middle.symm.subperm

/-- The definition of an aperture uses its id up, unless it fails before. -/
theorem ensures_defineAperture (hI : Accrues I) (s : GraphicsState α)
    (d : ApertureDefinition α) :
    (Composer.defineAperture s d).Ensures
      (fun c => I (pendingIds bodies (d.id :: fresh)) c.toLibrary)
      (fun _ c => I (pendingIds bodies fresh) c.toLibrary)
      fun _ c => I (pendingIds bodies fresh) c.toLibrary := by
  have hshapes : (apertureShapes s d.template : Action (Composer α) _).Keeps
      fun c => I (pendingIds bodies (d.id :: fresh)) c.toLibrary :=
    (refines_apertureShapes s d.template).keeps
  refine Action.Ensures.bind (hshapes.ensures.weaken (fun _ _ h => h) fun _ _ h =>
    hI.fewer (hI.of_fresh h) (List.sublist_cons_self _ _).subperm) fun shapes => ?_
  cases shapes with
  | none => exact fun c hc => hI.remove (hI.of_fresh hc)
  | some shapes => exact fun c hc => hI.define (hI.of_fresh hc) (Layer.id_ofItems _ _)

/-- The end of a block uses the id of the block up. -/
theorem ensures_endBlock (hI : Accrues I) (b : Block α) :
    (Composer.endBlock b).Ensures (fun c => I (pendingIds (some b.id :: bodies) fresh) c.toLibrary)
      (fun _ c => I (pendingIds bodies fresh) c.toLibrary)
      fun _ c => I (pendingIds bodies fresh) c.toLibrary := by
  intro c hc
  have hpending : I (b.id :: pendingIds bodies fresh) c.toLibrary := hc
  have hfewer := hI.fewer hpending (List.sublist_cons_self _ _).subperm
  rw [endBlock, Action.get_bind]
  cases hbelow : c.below with
  | nil => exact hfewer
  | cons parent rest =>
      dsimp only
      by_cases hid : c.top.id = LayerId.ofAperture b.id
      · rw [if_pos hid]
        exact hI.define hpending hid
      · rw [if_neg hid]
        exact hfewer

/-- A flash keeps what the steps of a library keep. -/
theorem keeps_flash (hI : Accrues I) (s : GraphicsState α) (id : ApertureId)
    (center : Point α) :
    Action.Keeps (fun c => I pending c.toLibrary) (Composer.flash s id center) := by
  refine Composer.keeps_flash (Action.Keeps.ensures fun c hc => ?_) fun c source hc => hc
  exact hI.variant pending s.transform (.ofAperture id) c.toLibrary hc

/-- **The callbacks and the library.** Definitions use up pending ids, flashes build variants, and
the other callbacks leave the library alone. -/
theorem refines_receiver (hI : Accrues I) :
    (receiver : Receiver α (Composer α)).Refines (fun _ => False) Scope.all
      (fun bodies fresh c c' => c = c' ∧ I (pendingIds bodies fresh) c.toLibrary) receiver where
  fewer hsub h := ⟨h.1, hI.fewer h.2 (hsub.append_left _).subperm⟩
  apertureDefined s d _ _ _ _ := (hI.ensures_defineAperture s d).refines
  beginBlock _ b bodies fresh _ _ := by
    have hbegin : (begin (.ofAperture b.id)).Ensures
        (fun c : Composer α => I (pendingIds bodies (b.id :: fresh)) c.toLibrary)
        (fun _ c => I (pendingIds (some b.id :: bodies) fresh) c.toLibrary)
        fun _ c => I (pendingIds bodies fresh) c.toLibrary := fun c hc => hI.of_fresh hc
    exact hbegin.refines
  endBlock _ b _ _ _ _ := (hI.ensures_endBlock b).refines
  beginStepRepeat _ _ bodies fresh _ := by
    have hbegin : beginStepRepeat.Ensures
        (fun c : Composer α => I (pendingIds bodies fresh) c.toLibrary)
        (fun _ c => I (pendingIds (none :: bodies) fresh) c.toLibrary)
        fun _ c => I (pendingIds bodies fresh) c.toLibrary := fun c hc => hc
    exact hbegin.refines
  endStepRepeat _ r _ _ _ := (keeps_endStepRepeat fun c _ _ _ hc => hc).refines
  flash s id _ center _ _ _ _ := (hI.keeps_flash s id center).refines
  send s segment route _ _ _ := (steady_library.keeps_send s segment route).refines
  beginRegion _ _ _ _ := (keeps_library_setContour _).refines
  flushRegion s _ _ _ := (steady_library.keeps_flushContour s).refines
  endRegion s _ _ _ := (steady_library.keeps_endRegion (fun c hc => hc) s).refines
  endOfFile _ _ _ := (keeps_library_setContour _).refines

/-- **All moments of a run.** -/
theorem holds_moment (hI : Accrues I) (options : Options) {nodes : List (Node α)}
    (hempty : I (Node.definitionsOf nodes) .empty) (k : Nat) :
    ∃ pending, I pending
      (moment Composer.receiver options nodes (.initial .initial)
        k).machine.receiver.toLibrary :=
  ⟨_, Machine.holds_moment hI.refines_receiver options (m := .initial .initial) hempty k⟩

end Library.Accrues

end Photoplot
