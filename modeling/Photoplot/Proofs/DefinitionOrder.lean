import Photoplot.Proofs.DerivedState
import Photoplot.Proofs.LayerNames
import Photoplot.Proofs.Twins

/-!
# Runs of Definitions

Programs often begin with a run of definitions of apertures, and some have runs of them in other
places. Definitions under different names do not get in each other's way: in another order they
lead to a twin of the machine, and the program has the same outcome.

## Context convention

A run of nodes stands somewhere in a program, after other nodes and in the bodies around it. What is
around it is a **context**, a program with one place left open. The bodies of the context are the
bodies with the run in them, which is what blocks are defined with. A program that ends before it
comes to the open place does not care about what is there.

## Main definitions

* `Context`, `Context.fill`: a program with one place left open, and with nodes there.
* `Context.reached?`: the machine that comes to the open place.
* `Machine.defineAll`: the definitions of a run, one after another.
* `Machine.CanDefine`, `Machine.withAperture`: when a definition succeeds, and what it does then.

## Main results

* `Machine.twin_withAperture_comm`: two definitions under different names.
* `Machine.defineAll_of_perm`: a run of definitions, by induction on the permutation.
* `Machine.refines_visitAll_fill`: the context around runs that lead to twins, by induction on the
  context.
* `result_compile_of_perm`: runs of definitions in another order, for whole programs.
-/

namespace Photoplot

variable {α σ β γ : Type}

/-! ### Contexts -/

/-- A program with one place left open: before other nodes, after a node, or in a body. -/
inductive Context (α : Type) where
  | here (rest : List (Node α))
  | later (first : Node α) (others : Context α)
  | inside (frame : Frame α) (body : Context α) (rest : List (Node α))

namespace Context

/-- The program with nodes in the open place. -/
def fill (nodes : List (Node α)) : Context α → List (Node α)
  | here rest => nodes ++ rest
  | later first others => first :: others.fill nodes
  | inside frame body rest => frame.enclose (body.fill nodes) :: rest

variable [Scalar α]

/-- The machine that comes to the nodes in the open place, unless the run ends before that. -/
def reached? (r : Receiver α σ) (options : Options) (nodes : List (Node α)) :
    Context α → Machine α σ → Option (Machine α σ)
  | here _, m => some m
  | later first others, m =>
    let passed := Machine.visitAll r options [first] m
    match passed.result with
    | .ok .continue => others.reached? r options nodes passed.state
    | _ => none
  | inside frame body _, m =>
    let entered := Machine.enter r (body.fill nodes) frame m
    match entered.result with
    | .ok _ => body.reached? r options nodes entered.state
    | .error _ => none

end Context

namespace Machine

variable [Scalar α] {r : Receiver α σ} {options : Options} {m m' : Machine α σ}

/-- A first node that ends the run ends it, whatever comes after it. -/
theorem visitAll_cons_of_ne_continue {first : Node α}
    (h : (visitAll r options [first] m).result ≠ .ok .continue) (rest : List (Node α)) :
    (visitAll r options (first :: rest) m).result = (visitAll r options [first] m).result ∧
      (visitAll r options (first :: rest) m).state = (visitAll r options [first] m).state := by
  obtain ⟨honly, honly'⟩ := visitAll_cons r options first [] m
  obtain ⟨hresult, hstate⟩ := visitAll_cons r options first rest m
  rw [honly] at h
  rw [hresult, hstate, honly, honly']
  cases hfirst : (visit r options first m).result with
  | ok flow =>
      cases flow with
      | halt => exact ⟨rfl, rfl⟩
      | «continue» =>
          rw [hfirst, proceed, visitAll] at h
          exact absurd rfl h
  | error e =>
      rw [hfirst, proceed] at h
      simp only [proceed]
      cases hskip : (skip options first e (visit r options first m).state).result with
      | ok _ =>
          rw [(Action.bind_eq_of_ok hskip).1, visitAll] at h
          exact absurd rfl h
      | error e' =>
          simp only [Action.bind_eq_of_error hskip, and_self]

/-! ### Contexts around runs that lead to twins -/

section

variable [Legible α] {run run' : List (Node α)}

/-- The same first node is carried out alike by twins, and if it does not end the run, what comes
after it may be other nodes. -/
theorem refines_visitAll_later {P Q : Machine α (Composer α) → Machine α (Composer α) → Prop}
    {first : Node α} {others others' : List (Node α)} (hP : ∀ m m', P m m' → Twin m m')
    (hfirst : ∀ m m', P m m' →
      (visitAll Composer.receiver options [first] m).result = .ok .continue →
      Q (visitAll Composer.receiver options [first] m).state
        (visitAll Composer.receiver options [first] m').state)
    (hothers : Action.Refines (fun _ => False) Q (visitAll Composer.receiver options others)
      (visitAll Composer.receiver options others') (fun _ => Twin) Twin) :
    Action.Refines (fun _ => False) P (visitAll Composer.receiver options (first :: others))
      (visitAll Composer.receiver options (first :: others')) (fun _ => Twin) Twin := by
  refine Action.refines_of_ends fun m m' h => ?_
  obtain ⟨hresult, hstate⟩ := (couples_visitAll_twin options [first]).ends (hP m m' h)
  by_cases hgoes : (visitAll Composer.receiver options [first] m).result = .ok .continue
  · obtain ⟨hsame, hended⟩ := hothers.ends (hfirst m m' h hgoes)
    obtain ⟨hall, hlast⟩ := visitAll_cons_of_continue hgoes others
    obtain ⟨hall', hlast'⟩ := visitAll_cons_of_continue (hresult ▸ hgoes) others'
    rw [hall, hall', hlast, hlast']
    exact ⟨hsame, hended⟩
  · obtain ⟨hall, hlast⟩ := visitAll_cons_of_ne_continue hgoes others
    obtain ⟨hall', hlast'⟩ :=
      visitAll_cons_of_ne_continue (fun h => hgoes (hresult.trans h)) others'
    rw [hall, hall', hlast, hlast']
    exact ⟨hresult, hstate⟩

/-- **A context** around runs of nodes. If they lead from twins to twins wherever the context comes
to them, so do the programs. The induction is on the context. -/
theorem refines_visitAll_fill {Ready : Machine α (Composer α) → Prop} (C : Context α)
    (hruns : ∀ rest, Action.Refines (fun _ => False) (fun m m' => Ready m ∧ Twin m m')
      (visitAll Composer.receiver options (run ++ rest))
      (visitAll Composer.receiver options (run' ++ rest)) (fun _ => Twin) Twin) :
    Action.Refines (fun _ => False)
      (fun m m' => (∀ there ∈ C.reached? Composer.receiver options run m, Ready there) ∧
        Twin m m')
      (visitAll Composer.receiver options (C.fill run))
      (visitAll Composer.receiver options (C.fill run')) (fun _ => Twin) Twin := by
  induction C with
  | here rest => exact (hruns rest).strengthen fun m m' h => ⟨h.1 m rfl, h.2⟩
  | later first others ih =>
      refine refines_visitAll_later (fun _ _ h => h.2) (fun m m' h hgoes => ⟨?_, ?_⟩) ih
      · intro there hthere
        exact h.1 there (by simpa only [Context.reached?, hgoes])
      · exact ((couples_visitAll_twin options [first]).ends h.2).2
  | inside frame body rest ih =>
      refine refines_visitAll_cons (by cases frame <;> rfl) ?_ (couples_visitAll_twin options rest)
      refine refines_enclose Composer.recolors_twin (fun _ _ h => h.2) (fun _ _ h => h.2) frame
        (fun m m' h hentered => ⟨?_, ?_⟩) ih
      · intro there hthere
        exact h.1 there (by simpa only [Context.reached?, hentered])
      · exact ((couples_enter Composer.recolors_twin _ _ frame).ends h.2).2

end

end Machine

/-! ### One definition -/

/-- What the definition of an aperture does to a library: its layer is defined, or there is none
without geometry. -/
def Revision.ofShapes (id : ApertureId) : Option (List (Shape α)) → Revision α
  | some shapes => .define (.ofItems (.ofAperture id) (shapes.map .shape))
  | none => .remove (.ofAperture id)

/-- A definition builds no variant. -/
theorem Revision.isBuild_ofShapes (id : ApertureId) (shapes : Option (List (Shape α))) :
    (ofShapes id shapes).isBuild = false := by
  cases shapes <;> rfl

/-- A definition changes the layer of its aperture. -/
@[simp] theorem Revision.target_ofShapes [Legible α] (id : ApertureId)
    (shapes : Option (List (Shape α))) : (ofShapes id shapes).target = .ofAperture id := by
  cases shapes with
  | none => rfl
  | some shapes => exact Layer.id_ofItems _ _

/-- The shapes of an aperture are the same for all receivers, and nothing changes. -/
theorem Composer.apertureShapes_eq [Scalar α] (s : GraphicsState α) (template : Template α)
    (c : σ) :
    (apertureShapes s template c).result = (apertureShapes s template ()).result ∧
      (apertureShapes s template c).state = c :=
  Action.Refines.ends (P := fun c' _ => c' = c) (refines_apertureShapes s template) rfl

/-- The composer has the shapes of an aperture in its library after the definition. -/
theorem Composer.defineAperture_eq_of_shapes [Scalar α] [Legible α] {s : GraphicsState α}
    {d : ApertureDefinition α} {shapes : Option (List (Shape α))} (c : Composer α)
    (h : (apertureShapes s d.template ()).result = .ok shapes) :
    (defineAperture s d c).result = .ok () ∧
      (defineAperture s d c).state =
        { c with toLibrary := c.toLibrary.revise (.ofShapes d.id shapes) } := by
  obtain ⟨hsame, hstate⟩ := apertureShapes_eq s d.template c
  rw [defineAperture]
  refine Action.bind_ends ⟨hsame.trans h, hstate⟩ ?_
  cases shapes <;> exact ⟨rfl, rfl⟩

namespace Machine

variable [Scalar α]

/-- The definition of an aperture with these shapes succeeds: its macro is there and has a value,
and if the aperture is selected, it can be flashed. -/
structure CanDefine (d : ApertureDefinition α) (shapes : Option (List (Shape α)))
    (m : Machine α (Composer α)) : Prop where
  hasMacro : m.state.HasMacro d
  shapes : (Composer.apertureShapes m.state d.template ()).result = .ok shapes
  flashable : m.state.selected = some d.id → ∃ target, FlashTarget.ofDefinition d = .ok target

/-- The machine in which an aperture with these shapes has been defined. -/
def withAperture [Legible α] (d : ApertureDefinition α) (shapes : Option (List (Shape α)))
    (m : Machine α (Composer α)) : Machine α (Composer α) :=
  { m with
    state := m.state.withAperture d
    receiver := { m.receiver with
      toLibrary := m.receiver.toLibrary.revise (.ofShapes d.id shapes) }
    flashTarget :=
      if m.state.selected = some d.id then (FlashTarget.ofDefinition d).toOption
      else m.flashTarget }

/-- Another definition does not matter to whether a definition succeeds. -/
theorem canDefine_withAperture [Legible α] {d e : ApertureDefinition α}
    {shapes shapes' : Option (List (Shape α))} {m : Machine α (Composer α)} :
    (m.withAperture d shapes).CanDefine e shapes' ↔ m.CanDefine e shapes' :=
  ⟨fun h => ⟨h.hasMacro, h.shapes, h.flashable⟩, fun h => ⟨h.hasMacro, h.shapes, h.flashable⟩⟩

omit [Scalar α] in
/-- A definition of the selected aperture is refused if the aperture cannot be flashed. -/
theorem result_reselect_eq_ok_iff {d : ApertureDefinition α} {m : Machine α σ}
    (h : m.state.resolve d.id = .ok (.aperture d)) :
    (reselect d.id m).result = .ok () ↔
      (m.state.selected = some d.id → ∃ target, FlashTarget.ofDefinition d = .ok target) := by
  rw [reselect, Action.gets_bind]
  by_cases hselected : m.state.selected = some d.id
  · rw [if_pos hselected, result_select h, FlashTarget.ofResolved]
    cases FlashTarget.ofDefinition d <;> simp [hselected, Except.map]
  · rw [if_neg hselected]
    simp [hselected, pure, Action.pure]

omit [Scalar α] in
/-- A definition of the selected aperture derives the flash target anew. -/
theorem state_reselect {d : ApertureDefinition α} {m : Machine α σ}
    (h : m.state.resolve d.id = .ok (.aperture d)) :
    (reselect d.id m).state = { m with
      flashTarget :=
        if m.state.selected = some d.id then (FlashTarget.ofDefinition d).toOption
        else m.flashTarget } := by
  rw [reselect, Action.gets_bind]
  by_cases hselected : m.state.selected = some d.id
  · have hsame : { m.state with selected := some d.id } = m.state := by rw [← hselected]
    have hcurrent : m.state.current = .ok (.aperture d) := by
      rw [GraphicsState.current, hselected]
      exact h
    rw [if_pos hselected, if_pos hselected, state_select, hsame, GraphicsState.flashTarget,
      hcurrent]
    rfl
  · rw [if_neg hselected, if_neg hselected]
    rfl

variable [Legible α] {d e : ApertureDefinition α} {m m' : Machine α (Composer α)}

omit [Scalar α] [Legible α] in
/-- An aperture that was just defined is found under its id. -/
theorem resolve_withAperture (d : ApertureDefinition α) (s : GraphicsState α) :
    (s.withAperture d).resolve d.id = .ok (.aperture d) := by
  simp [GraphicsState.resolve, GraphicsState.withAperture]

/-- **A definition** succeeds if it can, and then it is known what it does. -/
theorem CanDefine.defineAperture {shapes : Option (List (Shape α))} (h : m.CanDefine d shapes) :
    (defineAperture Composer.receiver d m).result = .ok () ∧
      (defineAperture Composer.receiver d m).state = m.withAperture d shapes := by
  let accepted : Machine α (Composer α) := { m with state := m.state.withAperture d }
  let told : Machine α (Composer α) := { accepted with
    receiver := { m.receiver with
      toLibrary := m.receiver.toLibrary.revise (.ofShapes d.id shapes) } }
  have haccepted : (onState (GraphicsState.defineAperture d) m).result = .ok () ∧
      (onState (GraphicsState.defineAperture d) m).state = accepted := by
    obtain ⟨-, hdefined⟩ | ⟨name, parameters, hcall, hmissing, -⟩ :=
      GraphicsState.defineAperture_cases d m.state
    · rw [onState, Action.focus, hdefined]
      exact ⟨rfl, rfl⟩
    · exact absurd (h.hasMacro name parameters hcall) hmissing
  have htold : (tell (Composer.receiver.apertureDefined · d) accepted).result = .ok () ∧
      (tell (Composer.receiver.apertureDefined · d) accepted).state = told := by
    obtain ⟨hresult, hstate⟩ :=
      Composer.defineAperture_eq_of_shapes (s := accepted.state) m.receiver h.shapes
    exact ⟨hresult, congrArg (fun receiver => { accepted with receiver }) hstate⟩
  have hresolve : told.state.resolve d.id = .ok (.aperture d) := resolve_withAperture d m.state
  exact Action.bind_ends haccepted (Action.bind_ends htold
    ⟨(result_reselect_eq_ok_iff hresolve).mpr h.flashable, state_reselect hresolve⟩)

/-- A definition that succeeds could. -/
theorem exists_canDefine (h : (Machine.defineAperture Composer.receiver d m).result = .ok ()) :
    ∃ shapes, m.CanDefine d shapes := by
  obtain ⟨_, haccepted, h⟩ := Action.exists_of_bind_eq_ok h
  obtain ⟨_, htold, hselected⟩ := Action.exists_of_bind_eq_ok h
  obtain ⟨hhas, hdefined⟩ | ⟨name, parameters, -, -, hfailed⟩ :=
    GraphicsState.defineAperture_cases d m.state
  · have hstate : (onState (GraphicsState.defineAperture d) m).state =
        { m with state := m.state.withAperture d } := by
      rw [onState, Action.focus, hdefined]
    rw [hstate] at htold hselected
    obtain ⟨shapes, hshapes, -⟩ := Action.exists_of_bind_eq_ok
      (show (Composer.defineAperture (m.state.withAperture d) d m.receiver).result = .ok () from
        htold)
    let told := (tell (Composer.receiver.apertureDefined · d)
      { m with state := m.state.withAperture d }).state
    have hresolve : told.state.resolve d.id = .ok (.aperture d) := resolve_withAperture d m.state
    exact ⟨shapes, hhas, (Composer.apertureShapes_eq _ _ m.receiver).1.symm.trans hshapes,
      (result_reselect_eq_ok_iff hresolve).mp hselected⟩
  · have hresult : (onState (GraphicsState.defineAperture d) m).result =
        .error (.macroNotDefined name) := congrArg Step.result hfailed
    rw [hresult] at haccepted
    cases haccepted

omit [Scalar α] in
/-- **Two definitions** under different names lead to twins, whichever of them comes first. -/
theorem twin_withAperture_comm (hids : d.id ≠ e.id) (shapes shapes' : Option (List (Shape α)))
    (m : Machine α (Composer α)) :
    Twin ((m.withAperture d shapes).withAperture e shapes')
      ((m.withAperture e shapes').withAperture d shapes) where
  state := by
    refine ⟨rfl, fun id => ?_, fun id => ?_⟩
    · simp only [withAperture, GraphicsState.withAperture, Std.TreeMap.getElem?_insert,
        Std.compare_eq_iff_eq]
      grind
    · simp only [withAperture, GraphicsState.withAperture, Std.TreeMap.getElem?_erase,
        Std.compare_eq_iff_eq]
      grind
  flashTarget := by
    have hselected : m.state.selected = some d.id → m.state.selected ≠ some e.id := fun h h' =>
      hids (Option.some.inj (h.symm.trans h'))
    simp only [withAperture, GraphicsState.withAperture]
    grind
  route := rfl
  receiver := Composer.twin_iff.mpr ⟨Library.twin_revise_comm (Revision.isBuild_ofShapes _ _)
    (Revision.isBuild_ofShapes _ _) (by simpa using fun h => hids (LayerId.ofAperture_inj h)) _,
    rfl, rfl, rfl, rfl⟩
  diagnostics := rfl

end Machine

/-! ### Runs of definitions -/

/-- The nodes that define apertures. -/
def ApertureDefinition.nodes (ds : List (ApertureDefinition α)) : List (Node α) :=
  ds.map fun d => .command (.defineAperture d)

namespace Machine

/-- Defines apertures one after another until a definition fails. -/
def defineAll (r : Receiver α σ) (ds : List (ApertureDefinition α)) :
    Action (Machine α σ) Unit := ds.forM (defineAperture r)

variable [Scalar α] [Legible α] {options : Options} {d : ApertureDefinition α}
  {ds ds' : List (ApertureDefinition α)} {m m' : Machine α (Composer α)}

/-- A run is its first definition and then the others. -/
theorem CanDefine.defineAll_cons {shapes : Option (List (Shape α))} (h : m.CanDefine d shapes)
    (ds : List (ApertureDefinition α)) :
    let others := defineAll Composer.receiver ds (m.withAperture d shapes)
    (defineAll Composer.receiver (d :: ds) m).result = others.result ∧
      (defineAll Composer.receiver (d :: ds) m).state = others.state := by
  intro others
  obtain ⟨hresult, hstate⟩ := Action.bind_eq_of_ok
    (f := fun _ => defineAll Composer.receiver ds) h.defineAperture.1
  rw [h.defineAperture.2] at hresult hstate
  exact ⟨hresult, hstate⟩

/-- When definitions succeed one after the other, the first one can be made and the others succeed
after it. -/
theorem exists_canDefine_of_cons (h : (defineAll Composer.receiver (d :: ds) m).result = .ok ()) :
    ∃ shapes, m.CanDefine d shapes ∧
      (defineAll Composer.receiver ds (m.withAperture d shapes)).result = .ok () := by
  obtain ⟨_, hfirst, -⟩ := Action.exists_of_bind_eq_ok h
  obtain ⟨shapes, hshapes⟩ := exists_canDefine hfirst
  exact ⟨shapes, hshapes, (hshapes.defineAll_cons ds).1.symm.trans h⟩

/-- Twins carry out a run alike. -/
theorem couples_defineAll (ds : List (ApertureDefinition α)) :
    Action.Couples Twin (defineAll Composer.receiver ds) (defineAll Composer.receiver ds) := by
  induction ds with
  | nil => exact .pure fun _ _ hm => hm
  | cons d rest ih =>
      exact Action.Refines.bind (couples_defineAperture Composer.recolors_twin d) fun _ => ih

/-- **A run of definitions** under different names succeeds in every order, and leads to twins. The
induction is on the permutation. -/
theorem defineAll_of_perm (hperm : ds.Perm ds') (hids : (ds.map (·.id)).Nodup) (hm : Twin m m')
    (h : (defineAll Composer.receiver ds m).result = .ok ()) :
    (defineAll Composer.receiver ds' m').result = .ok () ∧
      Twin (defineAll Composer.receiver ds m).state (defineAll Composer.receiver ds' m').state := by
  induction hperm generalizing m m' with
  | nil => exact ⟨rfl, hm⟩
  | @cons d ds ds' _ ih =>
      obtain ⟨hresult, hstate⟩ := (couples_defineAperture Composer.recolors_twin d).ends hm
      obtain ⟨shapes, hshapes, hothers⟩ := exists_canDefine_of_cons h
      obtain ⟨shapes', hshapes'⟩ :=
        exists_canDefine (hresult.symm.trans hshapes.defineAperture.1)
      rw [hshapes.defineAperture.2, hshapes'.defineAperture.2] at hstate
      obtain ⟨hdone, hended⟩ := ih (List.nodup_cons.mp hids).2 hstate hothers
      rw [(hshapes.defineAll_cons ds).2, (hshapes'.defineAll_cons ds').2]
      exact ⟨(hshapes'.defineAll_cons ds').1.trans hdone, hended⟩
  | swap d e rest =>
      have hne : e.id ≠ d.id := fun heq => (List.nodup_cons.mp hids).1 (by simp [heq])
      obtain ⟨shapes, he, hothers⟩ := exists_canDefine_of_cons h
      obtain ⟨shapes', hd, hrest⟩ := exists_canDefine_of_cons hothers
      -- from the same machine first
      have hd' : m.CanDefine d shapes' := canDefine_withAperture.mp hd
      have he' : (m.withAperture d shapes').CanDefine e shapes := canDefine_withAperture.mpr he
      obtain ⟨hsame, htwins⟩ :=
        (couples_defineAll rest).ends (twin_withAperture_comm hne shapes shapes' m)
      obtain ⟨hresult, hstate⟩ := (couples_defineAll (d :: e :: rest)).ends hm
      have hswapped : (defineAll Composer.receiver (d :: e :: rest) m).result = .ok () := by
        rw [(hd'.defineAll_cons _).1, (he'.defineAll_cons _).1, ← hsame, hrest]
      refine ⟨hresult.symm.trans hswapped, equivalence_twin.trans ?_ hstate⟩
      rw [(he.defineAll_cons _).2, (hd.defineAll_cons _).2, (hd'.defineAll_cons _).2,
        (he'.defineAll_cons _).2]
      exact htwins
  | trans hperm _ ih ih' =>
      obtain ⟨hmiddle, htwins⟩ := ih hids hm h
      obtain ⟨hlast, htwins'⟩ :=
        ih' ((hperm.map _).nodup hids) (equivalence_twin.refl m') hmiddle
      exact ⟨hlast, equivalence_twin.trans htwins htwins'⟩

omit [Legible α] in
/-- After a run that succeeds come the other nodes. -/
theorem visitAll_definitions {r : Receiver α σ} (options : Options) {m : Machine α σ}
    (h : (defineAll r ds m).result = .ok ()) (rest : List (Node α)) :
    let others := visitAll r options rest (defineAll r ds m).state
    (visitAll r options (ApertureDefinition.nodes ds ++ rest) m).result = others.result ∧
      (visitAll r options (ApertureDefinition.nodes ds ++ rest) m).state = others.state := by
  induction ds generalizing m with
  | nil => exact ⟨rfl, rfl⟩
  | cons d ds ih =>
      obtain ⟨_, hfirst, hothers⟩ := Action.exists_of_bind_eq_ok h
      have hvisited : (visit r options (.command (.defineAperture d)) m).result = .ok .continue ∧
          (visit r options (.command (.defineAperture d)) m).state =
            (defineAperture r d m).state := by
        rw [visit]
        exact Action.bind_ends ⟨hfirst, rfl⟩ ⟨rfl, rfl⟩
      obtain ⟨hresult, hstate⟩ := visitAll_cons r options (.command (.defineAperture d))
        (ApertureDefinition.nodes ds ++ rest) m
      rw [hvisited.1, hvisited.2, proceed] at hresult hstate
      have hall : (defineAll r (d :: ds) m).state =
          (defineAll r ds (defineAperture r d m).state).state := (Action.bind_eq_of_ok hfirst).2
      rw [hall]
      exact ⟨hresult.trans (ih hothers).1, hstate.trans (ih hothers).2⟩

end Machine

/-! ### Programs -/

/-- **Definitions commute.** In a run of definitions of apertures under different names, which all
succeed when the program comes to them, the order does not matter. Wherever the run stands, whatever
is selected there and whatever is done about errors, the program has the same outcome with the run
in another order: the same picture and diagnostics, or the same error. -/
theorem result_compile_of_perm [Scalar α] [Legible α] (options : Options) (C : Context α)
    {ds ds' : List (ApertureDefinition α)} (hperm : ds.Perm ds') (hids : (ds.map (·.id)).Nodup)
    (hsucceed : ∀ there ∈ C.reached? Composer.receiver options (ApertureDefinition.nodes ds)
      (.initial .initial), (Machine.defineAll Composer.receiver ds there).result = .ok ()) :
    ((compile options (C.fill (ApertureDefinition.nodes ds))).run ()).result =
      ((compile options (C.fill (ApertureDefinition.nodes ds'))).run ()).result := by
  have hruns (rest : List (Node α)) : Action.Refines (fun _ => False)
      (fun m m' => (Machine.defineAll Composer.receiver ds m).result = .ok () ∧ Machine.Twin m m')
      (Machine.visitAll Composer.receiver options (ApertureDefinition.nodes ds ++ rest))
      (Machine.visitAll Composer.receiver options (ApertureDefinition.nodes ds' ++ rest))
      (fun _ => Machine.Twin) Machine.Twin := by
    refine Action.refines_of_ends fun m m' h => ?_
    obtain ⟨hready, hm⟩ := h
    obtain ⟨hready', htwins⟩ := Machine.defineAll_of_perm hperm hids hm hready
    obtain ⟨hresult, hstate⟩ := Machine.visitAll_definitions options hready rest
    obtain ⟨hresult', hstate'⟩ := Machine.visitAll_definitions options hready' rest
    rw [hresult, hresult', hstate, hstate']
    exact (Machine.couples_visitAll_twin options rest).ends htwins
  refine result_compile_of_twins ((Machine.refines_visitAll_fill C hruns).strengthen ?_)
  rintro _ _ ⟨rfl, rfl⟩
  exact ⟨hsucceed, Machine.equivalence_twin.refl _⟩

/-- A block that is flashed, with an aperture that is selected before it is defined in the open
place and flashed after that. -/
def selectedInBlock : Context Float :=
  let flash : Node Float := .command (.flash ⟨none, none, none, none⟩)
  .inside (.block ⟨"D20"⟩) (.later (.command (.selectAperture ⟨"D11"⟩)) (.here [flash]))
    [.command (.selectAperture ⟨"D20"⟩), flash]

/-- Three apertures, of which one has a hole and one has no geometry. -/
def threeApertures : List (ApertureDefinition Float) :=
  [⟨⟨"D10"⟩, .circle ⟨2, some 1⟩⟩, ⟨⟨"D11"⟩, .circle ⟨1, none⟩⟩, ⟨⟨"D12"⟩, .unsupported "X"⟩]

/-- The run is reached and succeeds, the selected aperture is one of those that it defines, and the
reversed run makes the same picture. -/
theorem result_compile_reverse_threeApertures :
    let run := ApertureDefinition.nodes threeApertures
    let reversed := ApertureDefinition.nodes threeApertures.reverse
    let reached := selectedInBlock.reached? Composer.receiver {} run (.initial .initial)
    reached.map (·.state.selected) = some (some ⟨"D11"⟩) ∧
      (∀ there ∈ reached,
        (Machine.defineAll Composer.receiver threeApertures there).result = .ok ()) ∧
      ∃ picture diagnostics,
        ((compile {} (selectedInBlock.fill run)).run ()).result = .ok (picture, diagnostics) ∧
          ((compile {} (selectedInBlock.fill reversed)).run ()).result =
            .ok (picture, diagnostics) := by
  have hsucceed : (selectedInBlock.reached? Composer.receiver {}
      (ApertureDefinition.nodes threeApertures) (.initial .initial)).all (fun there =>
        (Machine.defineAll Composer.receiver threeApertures there).result.isOk) = true := by
    decide +kernel
  have hall := fun there hthere =>
    Action.eq_ok_of_isOk (Option.all_eq_true _ _ |>.mp hsucceed there hthere)
  have hchain : (composed {} (selectedInBlock.fill
      (ApertureDefinition.nodes threeApertures))).allLayers.IsChain
        [.main, ⟨"D20"⟩, ⟨"D11"⟩] :=
    ⟨by decide +kernel, by decide +kernel, by decide +kernel, trivial⟩
  obtain ⟨picture, diagnostics, hcompile, -⟩ :=
    exists_compile_of_isChain (by decide +kernel) hchain (by decide)
  refine ⟨by decide +kernel, hall, picture, diagnostics, hcompile, ?_⟩
  rw [← hcompile]
  exact (result_compile_of_perm {} selectedInBlock (List.reverse_perm _).symm (by decide +kernel)
    hall).symm

end Photoplot
