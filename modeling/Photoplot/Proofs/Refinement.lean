import Photoplot.Action

/-!
# Actions Side by Side

To compare two programs over different states, their actions are run side by side from related
states. The first action **refines** the second one when both end alike, with the same value or
the same error, and in related states again.

Nothing need be said about what happens after the first action has met its doom: an error after
which the run is over anyway. With no error doomed, an action that refines itself over equal
states with a property keeps that property.

## Main definitions

* `Action.Ensures`: what holds of the value and the state that an action ends with.
* `Action.Keeps`: an action keeps a property of its state, whether or not it fails.
* `Action.Refines`: one action refines another.
* `Action.Fails`: an action fails with a doomed error.

## Main results

* `Action.Ensures.bind`, `Action.Ensures.mapM`: sequences, and an action for each element of a
  list.
* `Action.Refines.bind`, `Action.Refines.attempt_bind`: sequences, and sequences that go on after
  an error.
* `Action.Keeps.refines`: from one action to two.
-/

namespace Photoplot.Action

variable {σ τ β γ : Type}

/-! ### Sequences -/

/-- A result without a value is known once it is a success. -/
theorem eq_ok_of_isOk {result : Except Error Unit} (h : result.isOk) : result = .ok () := by
  cases result with
  | error e => cases h
  | ok _ => rfl

/-- A sequence whose first action succeeds goes on with the second one, from the state that the
first one left. -/
theorem bind_eq_of_ok {a : Action σ β} {f : β → Action σ γ} {s : σ} {b : β}
    (h : (a s).result = .ok b) :
    ((a >>= f) s).result = (f b (a s).state).result ∧
      ((a >>= f) s).state = (f b (a s).state).state := by
  show (Action.bind a f s).result = _ ∧ (Action.bind a f s).state = _
  unfold Action.bind
  rcases hstep : a s with ⟨_ | b', s', warnings⟩
  · rw [hstep] at h
    cases h
  · rw [hstep] at h
    obtain rfl : b' = b := Except.ok.inj h
    exact ⟨rfl, rfl⟩

/-- A sequence whose first action fails ends there. -/
theorem bind_eq_of_error {a : Action σ β} {f : β → Action σ γ} {s : σ} {e : Error}
    (h : (a s).result = .error e) :
    ((a >>= f) s).result = .error e ∧ ((a >>= f) s).state = (a s).state := by
  show (Action.bind a f s).result = _ ∧ (Action.bind a f s).state = _
  unfold Action.bind
  rcases hstep : a s with ⟨e' | _, s', warnings⟩
  · rw [hstep] at h
    obtain rfl : e' = e := Except.error.inj h
    exact ⟨rfl, rfl⟩
  · rw [hstep] at h
    cases h

/-- A sequence of two actions that end with values. -/
theorem bind_ends {a : Action σ β} {f : β → Action σ γ} {s s' s'' : σ} {b : β} {c : γ}
    (ha : (a s).result = .ok b ∧ (a s).state = s')
    (hf : (f b s').result = .ok c ∧ (f b s').state = s'') :
    ((a >>= f) s).result = .ok c ∧ ((a >>= f) s).state = s'' := by
  obtain ⟨hresult, rfl⟩ := ha
  obtain ⟨hr, hs⟩ := bind_eq_of_ok (f := f) hresult
  exact ⟨hr.trans hf.1, hs.trans hf.2⟩

/-- A sequence that has a value passes through the value of its first part. -/
theorem exists_of_bind_eq_ok {a : Action σ β} {f : β → Action σ γ} {s : σ} {c : γ}
    (h : ((a >>= f) s).result = .ok c) :
    ∃ b, (a s).result = .ok b ∧ (f b (a s).state).result = .ok c := by
  cases ha : (a s).result with
  | error e =>
      rw [(bind_eq_of_error ha).1] at h
      cases h
  | ok b => exact ⟨b, rfl, (bind_eq_of_ok ha).1 ▸ h⟩

/-- The second of two actions matters only where the first one leads to. -/
theorem bind_congr {a : Action σ β} {f g : β → Action σ γ} {s : σ}
    (h : ∀ b, (a s).result = .ok b → f b (a s).state = g b (a s).state) :
    (a >>= f) s = (a >>= g) s := by
  show Action.bind a f s = Action.bind a g s
  unfold Action.bind
  revert h
  rcases a s with ⟨_ | b, s', warnings⟩
  · exact fun _ => rfl
  · intro h
    dsimp only at h ⊢
    rw [h b rfl]

/-- The first action of a sequence may be replaced by one that does the same from the state at hand.
-/
theorem bind_congr_left {a b : Action σ β} {f : β → Action σ γ} {s : σ} (h : a s = b s) :
    (a >>= f) s = (b >>= f) s := by
  show Action.bind a f s = Action.bind b f s
  rw [Action.bind, Action.bind, h]

/-- What goes on with the state goes on with the state at hand. -/
theorem get_bind (f : σ → Action σ γ) (s : σ) : (get >>= f) s = f s s := rfl

/-- What goes on with a part of the state goes on with that part of the state at hand. -/
theorem gets_bind (part : σ → β) (f : β → Action σ γ) (s : σ) :
    (gets part >>= f) s = f (part s) s := rfl

/-! ### One action -/

section Ensures

variable {P : σ → Prop} {Q : γ → σ → Prop} {E : Error → σ → Prop}

/-- From states with `P` an action ends with a value and a state in `Q`, or with an error and a
state in `E`. -/
def Ensures (P : σ → Prop) (a : Action σ β) (Q : β → σ → Prop) (E : Error → σ → Prop) : Prop :=
  ∀ s, P s → match (a s).result with
    | .ok b => Q b (a s).state
    | .error e => E e (a s).state

/-- An action **keeps** a property when it leads only to states with it, also when it fails. -/
def Keeps (P : σ → Prop) (a : Action σ β) : Prop := ∀ s, P s → P (a s).state

/-- An action keeps a property that it ensures whether or not it fails. -/
theorem Ensures.keeps {a : Action σ β} (h : Ensures P a (fun _ => P) fun _ => P) :
    Keeps P a := by
  intro s hs
  have hstep := h s hs
  cases hresult : (a s).result <;> rw [hresult] at hstep <;> exact hstep

/-- An action that keeps a property ensures it whether or not it fails. -/
theorem Keeps.ensures {a : Action σ β} (h : Keeps P a) : Ensures P a (fun _ => P) fun _ => P := by
  intro s hs
  have hstep := h s hs
  cases (a s).result <;> exact hstep

/-- An action whose error would be impossible gives a value. -/
theorem Ensures.exists_ok {a : Action σ β} {M : β → σ → Prop} (h : Ensures P a M fun _ _ => False)
    {s : σ} (hs : P s) : ∃ b, (a s).result = .ok b := by
  have hstep := h s hs
  cases hresult : (a s).result with
  | error e =>
      rw [hresult] at hstep
      exact hstep.elim
  | ok b => exact ⟨b, rfl⟩

/-- What an action ensures may be weakened. -/
theorem Ensures.weaken {a : Action σ β} {M M' : β → σ → Prop} {E' : Error → σ → Prop}
    (h : Ensures P a M E) (hvalue : ∀ b s, M b s → M' b s) (herror : ∀ e s, E e s → E' e s) :
    Ensures P a M' E' := by
  intro s hs
  have hstep := h s hs
  cases hresult : (a s).result with
  | error e =>
      rw [hresult] at hstep
      exact herror e _ hstep
  | ok b =>
      rw [hresult] at hstep
      exact hvalue b _ hstep

/-- What an action ensures, it ensures from fewer states as well. -/
theorem Ensures.strengthen {R : σ → Prop} {a : Action σ γ} (h : Ensures R a Q E)
    (himp : ∀ s, P s → R s) : Ensures P a Q E :=
  fun s hs => h s (himp s hs)

/-- A fact that is not about the state may be assumed outright. -/
theorem Ensures.of_and {p : Prop} {a : Action σ γ} (h : p → Ensures P a Q E) :
    Ensures (fun s => p ∧ P s) a Q E :=
  fun s hs => h hs.1 s hs.2

/-- A sequence ensures what its second action ensures from the states that the first one ends in. -/
theorem Ensures.bind {a : Action σ β} {f : β → Action σ γ} {M : β → σ → Prop}
    (ha : Ensures P a M E) (hf : ∀ b, Ensures (M b) (f b) Q E) : Ensures P (a >>= f) Q E := by
  intro s hs
  have hstep := ha s hs
  cases hresult : (a s).result with
  | error e =>
      rw [hresult] at hstep
      obtain ⟨hr, hstate⟩ := bind_eq_of_error (f := f) hresult
      rw [hr, hstate]
      exact hstep
  | ok b =>
      rw [hresult] at hstep
      obtain ⟨hr, hstate⟩ := bind_eq_of_ok (f := f) hresult
      rw [hr, hstate]
      exact hf b _ hstep

/-- What goes on with the state may be looked at for one state at a time. -/
theorem Ensures.get_bind {f : σ → Action σ γ} (h : ∀ s, P s → Ensures (· = s) (f s) Q E) :
    Ensures P (get >>= f) Q E :=
  fun s hs => h s hs s rfl

/-- What an action ensures may be shown for one state at a time. -/
theorem Ensures.of_state {a : Action σ γ} (h : ∀ s, P s → Ensures (· = s) a Q E) :
    Ensures P a Q E :=
  fun s hs => h s hs s rfl

/-- An action for each element of a list, which gives the image of the element under `g`. What
holds of the state may depend on the elements that are done. -/
theorem Ensures.mapM_done {f : β → Action σ γ} {g : β → γ} {P : List β → σ → Prop}
    (done items : List β)
    (h : ∀ first b rest, items = first ++ b :: rest →
      Ensures (P (done ++ first)) (f b) (fun c s => c = g b ∧ P (done ++ first ++ [b]) s) E) :
    Ensures (P done) (items.mapM f) (fun cs s => cs = items.map g ∧ P (done ++ items) s) E := by
  induction items generalizing done with
  | nil => exact fun s hs => ⟨rfl, by rwa [List.append_nil]⟩
  | cons b rest ih =>
      have hfirst := h [] b rest rfl
      rw [List.append_nil] at hfirst
      have hrest := ih (done ++ [b]) fun first b' rest' hsplit => by
        have hnext := h (b :: first) b' rest' (by rw [hsplit, List.cons_append])
        rwa [List.append_cons] at hnext
      rw [List.mapM_cons]
      refine Ensures.bind hfirst fun c => Ensures.of_and ?_
      rintro rfl
      refine Ensures.bind hrest fun cs => Ensures.of_and ?_
      rintro rfl
      exact fun s hs => ⟨rfl, by rwa [← List.append_cons] at hs⟩

/-- The same with a property that does not depend on what is done. -/
theorem Ensures.mapM {f : β → Action σ γ} {g : β → γ} {items : List β}
    (h : ∀ b ∈ items, Ensures P (f b) (fun c s => c = g b ∧ P s) E) :
    Ensures P (items.mapM f) (fun cs s => cs = items.map g ∧ P s) E :=
  Ensures.mapM_done (P := fun _ => P) [] items fun first b rest hsplit =>
    h b (by rw [hsplit]; exact List.mem_append_right _ List.mem_cons_self)

end Ensures

section Keeps

variable {P : σ → Prop}

/-- A value leaves the state as it is. -/
theorem Keeps.pure (b : β) : Keeps P (pure b : Action σ β) := fun _ hs => hs

/-- A failure leaves the state as it is. -/
theorem Keeps.fail (e : Error) : Keeps P (fail e : Action σ β) := fun _ hs => hs

/-- A result leaves the state as it is. -/
theorem Keeps.ofExcept (r : Except Error β) : Keeps P (ofExcept r : Action σ β) := fun _ hs => hs

/-- A warning leaves the state as it is. -/
theorem Keeps.warn (w : Warning) : Keeps P (warn w) := fun _ hs => hs

/-- Reading the state leaves it as it is. -/
theorem Keeps.get : Keeps P (get : Action σ σ) := fun _ hs => hs

/-- Reading a part of the state leaves the state as it is. -/
theorem Keeps.gets (part : σ → β) : Keeps P (gets part) := fun _ hs => hs

/-- An action on a state of its own leaves the outer state as it is. -/
theorem Keeps.inside (t : τ) (a : Action τ β) : Keeps P (inside t a : Action σ β) :=
  fun _ hs => hs

/-- A change of the state keeps a property that the changed state has. -/
theorem Keeps.modify {f : σ → σ} (h : ∀ s, P s → P (f s)) : Keeps P (modify f) := h

/-- An attempt keeps what the action keeps, since a failure does not undo its changes. -/
theorem Keeps.attempt {a : Action σ β} (h : Keeps P a) : Keeps P a.attempt := h

/-- A sequence keeps what both actions keep. -/
theorem Keeps.bind {a : Action σ β} {f : β → Action σ γ} (ha : Keeps P a)
    (hf : ∀ b, Keeps P (f b)) : Keeps P (a >>= f) := by
  intro s hs
  have hstep := ha s hs
  cases hresult : (a s).result with
  | error e =>
      rw [(bind_eq_of_error hresult).2]
      exact hstep
  | ok b =>
      rw [(bind_eq_of_ok hresult).2]
      exact hf b _ hstep

/-- Two actions for each element of a list come to the same if each of them does, from every state
that may be reached in between. -/
theorem Keeps.mapM_congr {f g : β → Action σ γ} {items : List β}
    (hkeeps : ∀ b ∈ items, Keeps P (f b)) (hsame : ∀ b ∈ items, ∀ s, P s → f b s = g b s) {s : σ}
    (hs : P s) : items.mapM f s = items.mapM g s := by
  induction items generalizing s with
  | nil => rfl
  | cons b rest ih =>
      rw [List.mapM_cons, List.mapM_cons, ← bind_congr_left (hsame b List.mem_cons_self s hs)]
      refine bind_congr fun c _ => bind_congr_left ?_
      exact ih (fun b' hb' => hkeeps b' (List.mem_cons_of_mem _ hb'))
        (fun b' hb' => hsame b' (List.mem_cons_of_mem _ hb')) (hkeeps b List.mem_cons_self s hs)

end Keeps

/-! ### Two actions -/

section Refines

variable {doomed : Error → Prop} {P R : σ → τ → Prop} {E E' : σ → τ → Prop}

/-- From related states the first action ends with a doomed error, or both actions end with the
same value in states related by `Q` or with the same error in states related by `E`. -/
def Refines (doomed : Error → Prop) (P : σ → τ → Prop) (a : Action σ β) (b : Action τ β)
    (Q : β → σ → τ → Prop) (E : σ → τ → Prop) : Prop :=
  ∀ s t, P s t → (∃ e, (a s).result = .error e ∧ doomed e) ∨
    (a s).result = (b t).result ∧
      match (a s).result with
      | .ok x => Q x (a s).state (b t).state
      | .error _ => E (a s).state (b t).state

/-- An action that fails with a doomed error from every state. -/
def Fails (doomed : Error → Prop) (a : Action σ β) : Prop :=
  ∀ s, ∃ e, (a s).result = .error e ∧ doomed e

/-- Actions refine each other when from related states they end alike, whatever is doomed. -/
theorem Refines.of_steps {a : Action σ β} {b : Action τ β} {Q : β → σ → τ → Prop}
    (h : ∀ s t, P s t → (a s).result = (b t).result ∧
      match (a s).result with
      | .ok x => Q x (a s).state (b t).state
      | .error _ => E (a s).state (b t).state) : Refines doomed P a b Q E :=
  fun s t hst => .inr (h s t hst)

/-- A refinement from related states is one from fewer pairs of states. -/
theorem Refines.strengthen {a : Action σ β} {b : Action τ β} {Q : β → σ → τ → Prop}
    (h : Refines doomed R a b Q E) (himp : ∀ s t, P s t → R s t) : Refines doomed P a b Q E :=
  fun s t hst => h s t (himp s t hst)

/-- What relates the states after a refinement may be weakened. -/
theorem Refines.weaken {a : Action σ β} {b : Action τ β} {Q Q' : β → σ → τ → Prop}
    (h : Refines doomed P a b Q E) (hvalue : ∀ x s t, Q x s t → Q' x s t)
    (herror : ∀ s t, E s t → E' s t) : Refines doomed P a b Q' E' := by
  intro s t hst
  refine (h s t hst).imp_right fun ⟨hresult, hstep⟩ => ⟨hresult, ?_⟩
  cases hr : (a s).result with
  | error e =>
      rw [hr] at hstep
      exact herror _ _ hstep
  | ok x =>
      rw [hr] at hstep
      exact hvalue x _ _ hstep

/-- A fact that is not about the states may be assumed outright. -/
theorem Refines.of_and {p : Prop} {a : Action σ β} {b : Action τ β} {Q : β → σ → τ → Prop}
    (h : p → Refines doomed P a b Q E) : Refines doomed (fun s t => p ∧ P s t) a b Q E :=
  fun s t hst => h hst.1 s t hst.2

/-- The same value on both sides. -/
theorem Refines.pure {x : β} {Q : β → σ → τ → Prop} (h : ∀ s t, P s t → Q x s t) :
    Refines doomed P (pure x : Action σ β) (pure x : Action τ β) Q E :=
  .of_steps fun s t hst => ⟨rfl, h s t hst⟩

/-- The same result on both sides. -/
theorem Refines.ofExcept {r : Except Error β} {Q : β → σ → τ → Prop}
    (hvalue : ∀ x s t, r = .ok x → P s t → Q x s t) (herror : ∀ s t, P s t → E s t) :
    Refines doomed P (ofExcept r : Action σ β) (ofExcept r : Action τ β) Q E := by
  refine .of_steps fun s t hst => ⟨rfl, ?_⟩
  cases r with
  | error e => exact herror s t hst
  | ok x => exact hvalue x s t rfl hst

/-- The same failure on both sides. -/
theorem Refines.fail {e : Error} {Q : β → σ → τ → Prop} (h : ∀ s t, P s t → E s t) :
    Refines doomed P (fail e : Action σ β) (fail e : Action τ β) Q E :=
  .of_steps fun s t hst => ⟨rfl, h s t hst⟩

/-- The same warning on both sides. -/
theorem Refines.warn {w : Warning} {Q : Unit → σ → τ → Prop} (h : ∀ s t, P s t → Q () s t) :
    Refines doomed P (warn w : Action σ Unit) (warn w : Action τ Unit) Q E :=
  .of_steps fun s t hst => ⟨rfl, h s t hst⟩

/-- The same action on a state of its own on both sides. -/
theorem Refines.inside {ρ : Type} {x : ρ} {a : Action ρ β} {Q : β → σ → τ → Prop}
    (hvalue : ∀ b s t, P s t → Q b s t) (herror : ∀ s t, P s t → E s t) :
    Refines doomed P (inside x a : Action σ β) (inside x a : Action τ β) Q E := by
  refine .of_steps fun s t hst => ⟨rfl, ?_⟩
  show match (a x).result with
    | .ok b => Q b s t
    | .error _ => E s t
  cases (a x).result with
  | error e => exact herror s t hst
  | ok b => exact hvalue b s t hst

/-- Changes of the states that keep them related. -/
theorem Refines.modify {f : σ → σ} {g : τ → τ} {Q : Unit → σ → τ → Prop}
    (h : ∀ s t, P s t → Q () (f s) (g t)) : Refines doomed P (modify f) (modify g) Q E :=
  .of_steps fun s t hst => ⟨rfl, h s t hst⟩

/-- Parts that are equal in related states. -/
theorem Refines.gets {f : σ → β} {g : τ → β} {Q : β → σ → τ → Prop}
    (h : ∀ s t, P s t → f s = g t ∧ Q (f s) s t) : Refines doomed P (gets f) (gets g) Q E :=
  .of_steps fun s t hst => ⟨congrArg Except.ok (h s t hst).1, (h s t hst).2⟩

/-- Sequences refine each other when their actions do, one after the other. -/
theorem Refines.bind {a : Action σ β} {b : Action τ β} {f : β → Action σ γ}
    {g : β → Action τ γ} {M : β → σ → τ → Prop} {Q : γ → σ → τ → Prop}
    (ha : Refines doomed P a b M E) (hf : ∀ x, Refines doomed (M x) (f x) (g x) Q E) :
    Refines doomed P (a >>= f) (b >>= g) Q E := by
  intro s t hst
  rcases ha s t hst with ⟨e, he, hdoomed⟩ | ⟨hresult, hstep⟩
  · exact .inl ⟨e, (bind_eq_of_error he).1, hdoomed⟩
  cases hr : (a s).result with
  | error e =>
      rw [hr] at hresult hstep
      obtain ⟨har, has⟩ := bind_eq_of_error (f := f) hr
      obtain ⟨hbr, hbs⟩ := bind_eq_of_error (f := g) hresult.symm
      rw [har, has, hbr, hbs]
      exact .inr ⟨rfl, hstep⟩
  | ok x =>
      rw [hr] at hresult hstep
      obtain ⟨har, has⟩ := bind_eq_of_ok (f := f) hr
      obtain ⟨hbr, hbs⟩ := bind_eq_of_ok (f := g) hresult.symm
      rw [har, has, hbr, hbs]
      exact hf x _ _ hstep

/-- A sequence that begins with a part of the state. The parts may differ. -/
theorem Refines.gets_bind {δ : Type} {part : σ → β} {part' : τ → δ} {f : β → Action σ γ}
    {g : δ → Action τ γ} {M : β → δ → Prop} {Q : γ → σ → τ → Prop}
    (hpart : ∀ s t, P s t → M (part s) (part' t))
    (h : ∀ x y, M x y → Refines doomed P (f x) (g y) Q E) :
    Refines doomed P (Action.gets part >>= f) (Action.gets part' >>= g) Q E :=
  fun s t hst => h _ _ (hpart s t hst) s t hst

/-- A sequence that begins with the state. -/
theorem Refines.get_bind {f : σ → Action σ γ} {g : τ → Action τ γ} {M : σ → τ → Prop}
    {Q : γ → σ → τ → Prop} (hget : ∀ s t, P s t → M s t)
    (h : ∀ s t, M s t → Refines doomed P (f s) (g t) Q E) :
    Refines doomed P (Action.get >>= f) (Action.get >>= g) Q E :=
  fun s t hst => h s t (hget s t hst) s t hst

/-- Results that are the same up to a key. -/
theorem exists_of_map_eq {κ : Type} {r r' : Except Error β} {key : β → κ}
    (h : r.map key = r'.map key) :
    (∃ e, r = .error e ∧ r' = .error e) ∨
      ∃ x y, r = .ok x ∧ r' = .ok y ∧ key x = key y := by
  cases r with
  | error e =>
      cases r' with
      | error e' => exact .inl ⟨e, rfl, congrArg _ (Except.error.inj h).symm⟩
      | ok y => cases h
  | ok x =>
      cases r' with
      | error e' => cases h
      | ok y => exact .inr ⟨x, y, rfl, rfl, Except.ok.inj h⟩

/-- A sequence that begins with a given result. The values may differ as long as they have the same
key. -/
theorem Refines.ofExcept_bind {κ : Type} {r r' : Except Error β} {key : β → κ}
    {f : β → Action σ γ} {g : β → Action τ γ} {Q : γ → σ → τ → Prop}
    (hr : r.map key = r'.map key)
    (h : ∀ x y, key x = key y → Refines doomed P (f x) (g y) Q E) (herror : ∀ s t, P s t → E s t) :
    Refines doomed P (Action.ofExcept r >>= f) (Action.ofExcept r' >>= g) Q E := by
  rcases exists_of_map_eq hr with ⟨e, rfl, rfl⟩ | ⟨x, y, rfl, rfl, hkey⟩
  · exact .of_steps fun s t hst => ⟨rfl, herror s t hst⟩
  · exact fun s t hst => h x y hkey s t hst

/-- A sequence goes on after an error that was caught. After a doomed one its first half must fail
in the end. -/
theorem Refines.attempt_bind {doomed' : Error → Prop} {a : Action σ β} {b : Action τ β}
    {f : Except Error β → Action σ γ} {g : Except Error β → Action τ γ} {M : β → σ → τ → Prop}
    {N : σ → τ → Prop} {Q : γ → σ → τ → Prop} (ha : Refines doomed' P a b M N)
    (hvalue : ∀ x, Refines doomed (M x) (f (.ok x)) (g (.ok x)) Q E)
    (herror : ∀ e, Refines doomed N (f (.error e)) (g (.error e)) Q E)
    (hdoomed : ∀ e, doomed' e → Fails doomed (f (.error e))) :
    Refines doomed P (a.attempt >>= f) (b.attempt >>= g) Q E := by
  intro s t hst
  have hleft : (a.attempt s).result = .ok (a s).result := rfl
  have hright : (b.attempt t).result = .ok (b t).result := rfl
  obtain ⟨har, has⟩ := bind_eq_of_ok (f := f) hleft
  obtain ⟨hbr, hbs⟩ := bind_eq_of_ok (f := g) hright
  rw [har, has, hbr, hbs]
  rcases ha s t hst with ⟨e, he, hd⟩ | ⟨hresult, hstep⟩
  · rw [he]
    exact .inl (hdoomed e hd _)
  · rw [← hresult]
    cases hr : (a s).result with
    | error e =>
        rw [hr] at hstep
        exact herror e _ _ hstep
    | ok x =>
        rw [hr] at hstep
        exact hvalue x _ _ hstep

/-- What follows an action that always gives a value decides whether the sequence fails. -/
theorem Fails.bind {a : Action σ β} {f : β → Action σ γ} (ha : ∀ s, ∃ x, (a s).result = .ok x)
    (hf : ∀ x, Fails doomed (f x)) : Fails doomed (a >>= f) := by
  intro s
  obtain ⟨x, hx⟩ := ha s
  obtain ⟨hr, -⟩ := bind_eq_of_ok (f := f) hx
  rw [hr]
  exact hf x _

/-- A sequence fails when its first action does. -/
theorem Fails.bind_left {a : Action σ β} {f : β → Action σ γ} (ha : Fails doomed a) :
    Fails doomed (a >>= f) := by
  intro s
  obtain ⟨e, he, hdoomed⟩ := ha s
  exact ⟨e, (bind_eq_of_error he).1, hdoomed⟩

/-- One action as two, with a property before it and others after it. -/
theorem Ensures.refines {R : σ → Prop} {Q : β → σ → Prop} {F : σ → Prop} {a : Action σ β}
    (h : Ensures R a Q fun _ => F) :
    Refines (fun _ => False) (fun s t => s = t ∧ R s) a a (fun b s t => s = t ∧ Q b s)
      (fun s t => s = t ∧ F s) := by
  refine .of_steps ?_
  rintro s _ ⟨rfl, hs⟩
  have hstep := h s hs
  refine ⟨rfl, ?_⟩
  cases hresult : (a s).result <;> rw [hresult] at hstep <;> exact ⟨rfl, hstep⟩

/-- **One action as two.** An action that keeps a property refines itself over equal states with
this property, and no error need be doomed. -/
theorem Keeps.refines {R : σ → Prop} {a : Action σ β} (h : Keeps R a) :
    Refines (fun _ => False) (fun s t => s = t ∧ R s) a a (fun _ s t => s = t ∧ R s)
      (fun s t => s = t ∧ R s) := by
  refine .of_steps ?_
  rintro s _ ⟨rfl, hs⟩
  refine ⟨rfl, ?_⟩
  cases (a s).result <;> exact ⟨rfl, h s hs⟩

/-- **Two actions as one.** What refines itself over equal states with a property keeps it. -/
theorem Refines.keeps {R : σ → Prop} {a : Action σ β}
    (h : Refines (fun _ => False) (fun s t => s = t ∧ R s) a a (fun _ s t => s = t ∧ R s)
      (fun s t => s = t ∧ R s)) : Keeps R a := by
  intro s hs
  rcases h s s ⟨rfl, hs⟩ with ⟨_, -, hdoomed⟩ | ⟨-, hstep⟩
  · exact hdoomed.elim
  · cases hresult : (a s).result <;> rw [hresult] at hstep <;> exact hstep.2

end Refines

end Photoplot.Action
