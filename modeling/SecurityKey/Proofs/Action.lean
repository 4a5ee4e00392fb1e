import SecurityKey.Card

/-!
# Runs of actions

- `Action.run_bind` and its companions take runs of composed actions apart;
- `Action.Adds count n a`: whatever the state, the action adds at most `n` to a count over states. A composed action
  adds at most the sum (`Adds.bind`);
- `Action.Fails P a`: whatever the state, the action fails with nothing but errors that are `P`. So do composed actions
  whose parts do (`Fails.bind`);
- `Action.Moves m a`: whatever the state, the action moves it as `m` allows. Movements compose, and so do actions that
  keep to them (`Moves.bind`).
-/

namespace SecurityKey

namespace Action

variable {σ τ ε ε' α β : Type}

/-! ## Runs -/

/-- One action after another. -/
theorem run_bind (a : Action σ ε α) (f : α → Action σ ε β) (s : σ) : (a >>= f) s =
    match a s with
    | (.ok x, t) => f x t
    | (.error e, t) => (.error e, t) := by
  have hbind : (a >>= f) s = ExceptT.bindCont f (a s).1 (a s).2 := rfl
  rw [hbind]
  rcases a s with ⟨_ | _, t⟩ <;> rfl

@[simp]
theorem run_pure (x : α) (s : σ) : (pure x : Action σ ε α) s = (.ok x, s) := rfl

@[simp]
theorem run_throw (e : ε) (s : σ) : (throw e : Action σ ε α) s = (.error e, s) := rfl

@[simp]
theorem run_get (s : σ) : (get : Action σ ε σ) s = (.ok s, s) := rfl

@[simp]
theorem run_set (s t : σ) : (set t : Action σ ε PUnit) s = (.ok ⟨⟩, t) := rfl

@[simp]
theorem run_modify (f : σ → σ) (s : σ) : (modify f : Action σ ε PUnit) s = (.ok ⟨⟩, f s) := rfl

@[simp]
theorem mapError_ok (f : ε → ε') (x : α) : (Except.ok x).mapError f = .ok x := rfl

@[simp]
theorem run_ofExcept_ok (f : ε → ε') (x : α) (s : σ) : (ofExcept f (.ok x) : Action σ ε' α) s = (.ok x, s) := rfl

/-- After a result the next action runs. -/
theorem bind_of_ok {a : Action σ ε α} {s t : σ} {x : α} (h : a s = (.ok x, t)) (f : α → Action σ ε β) :
    (a >>= f) s = f x t := by
  rw [run_bind, h]

/-- After an error nothing runs. -/
theorem bind_of_error {a : Action σ ε α} {s t : σ} {e : ε} (h : a s = (.error e, t)) (f : α → Action σ ε β) :
    (a >>= f) s = (.error e, t) := by
  rw [run_bind, h]

/-- Only the result of an action is changed. -/
theorem run_map (f : α → β) (a : Action σ ε α) (s : σ) : (f <$> a) s = ((a s).1.map f, (a s).2) := by
  rw [← bind_pure_comp, run_bind]
  rcases a s with ⟨_ | _, t⟩ <;> rfl

/-- Only the error of an action is changed. -/
theorem run_adapt (f : ε → ε') (a : Action σ ε α) (s : σ) :
    (a.adapt f : Action σ ε' α) s = ((a s).1.mapError f, (a s).2) := rfl

@[simp]
theorem run_observe (a : Action σ ε α) (s : σ) :
    (observe a : Action σ ε' (Except ε α)) s = (.ok (a s).1, (a s).2) := rfl

/-- A changed error is no result. -/
theorem eq_ok_of_mapError {f : ε → ε'} {r : Except ε α} {x : α} (h : r.mapError f = .ok x) : r = .ok x := by
  cases r with
  | error e => cases h
  | ok y =>
    cases h
    rfl

/-- A composed result is made of two. -/
theorem bind_eq_ok_iff {r : Except ε α} {f : α → Except ε β} {y : β} :
    r >>= f = .ok y ↔ ∃ x, r = .ok x ∧ f x = .ok y := by
  cases r <;> simp [bind, Except.bind]

theorem toOption_mapError (f : ε → ε') (r : Except ε α) : (r.mapError f).toOption = r.toOption := by
  cases r <;> rfl

/-- A result is what it is without its error. -/
theorem eq_ok_of_toOption {r : Except ε α} {x : α} (h : r.toOption = some x) : r = .ok x := by
  cases r with
  | error e => cases h
  | ok y => rw [Option.some.inj h]

/-! ## Counting -/

/-- Whatever the state, an action adds at most `n` to a count. -/
def Adds (count : σ → Nat) (n : Nat) (a : Action σ ε α) : Prop := ∀ s, count (a s).2 ≤ count s + n

namespace Adds

variable {count : σ → Nat} {n k : Nat}

theorem mono {a : Action σ ε α} (h : Adds count n a) (hn : n ≤ k) : Adds count k a := by
  intro s
  have := h s
  omega

theorem pure (x : α) : Adds count n (pure x : Action σ ε α) := fun _ => Nat.le_add_right ..

theorem throw (e : ε) : Adds count n (throw e : Action σ ε α) := fun _ => Nat.le_add_right ..

theorem ofExcept (f : ε → ε') (r : Except ε α) : Adds count n (ofExcept f r : Action σ ε' α) :=
  fun _ => Nat.le_add_right ..

/-- A change of the state that leaves the count alone adds nothing. -/
theorem modify {f : σ → σ} (h : ∀ s, count (f s) = count s) : Adds count n (modify f : Action σ ε PUnit) := by
  intro s
  rw [run_modify, h]
  exact Nat.le_add_right ..

/-- One action after another adds at most the sum. -/
theorem bind {a : Action σ ε α} {f : α → Action σ ε β} (ha : Adds count n a) (hf : ∀ x, Adds count k (f x)) :
    Adds count (n + k) (a >>= f) := by
  intro s
  have hs := ha s
  rw [run_bind]
  rcases h : a s with ⟨e | x, t⟩
  · rw [h] at hs
    simp only at hs ⊢
    omega
  · rw [h] at hs
    have ht := hf x t
    simp only at hs ⊢
    omega

/-- An action after one that adds nothing. -/
theorem bind_zero {a : Action σ ε α} {f : α → Action σ ε β} (ha : Adds count 0 a) (hf : ∀ x, Adds count k (f x)) :
    Adds count k (a >>= f) := by
  have h := ha.bind hf
  rwa [Nat.zero_add] at h

/-- An action that looks at the state first. -/
theorem get_bind {f : σ → Action σ ε α} (h : ∀ s, count (f s s).2 ≤ count s + n) :
    Adds count n (MonadState.get >>= f : Action σ ε α) := h

theorem adapt {a : Action σ ε α} (h : Adds count n a) (f : ε → ε') : Adds count n (a.adapt f : Action σ ε' α) := h

end Adds

/-! ## Errors -/

/-- Whatever the state, an action fails with nothing but certain errors. -/
def Fails (P : ε → Prop) (a : Action σ ε α) : Prop := ∀ s e, (a s).1 = .error e → P e

namespace Fails

variable {P : ε → Prop}

theorem pure (x : α) : Fails P (pure x : Action σ ε α) := by
  intro s e h
  cases h

theorem throw {e : ε} (he : P e) : Fails P (throw e : Action σ ε α) := by
  intro s e' h
  cases h
  exact he

/-- One action after another. -/
theorem bind {a : Action σ ε α} {f : α → Action σ ε β} (ha : Fails P a) (hf : ∀ x, Fails P (f x)) :
    Fails P (a >>= f) := by
  intro s e h
  rw [run_bind] at h
  rcases hs : a s with ⟨e' | x, t⟩
  · rw [hs] at h
    cases h
    exact ha s e (by rw [hs])
  · rw [hs] at h
    exact hf x t e h

/-- An action that looks at the state first. -/
theorem get_bind {f : σ → Action σ ε α} (h : ∀ s, Fails P (f s)) : Fails P (MonadState.get >>= f : Action σ ε α) :=
  fun s => h s s

/-- Changed errors. -/
theorem adapt (a : Action σ ε' α) {f : ε' → ε} (h : ∀ e, P (f e)) : Fails P (a.adapt f : Action σ ε α) := by
  intro s e he
  rw [run_adapt] at he
  rcases hs : (a s).1 with e' | x
  · rw [hs] at he
    cases he
    exact h e'
  · rw [hs] at he
    cases he

end Fails

end Action

/-! ## Movements -/

/-- How a state may be moved: not at all, and by one movement after another. -/
structure Movement (σ : Type) where
  rel : σ → σ → Prop
  refl : ∀ s, rel s s
  trans : ∀ {s t u}, rel s t → rel t u → rel s u

namespace Action

variable {σ ε ε' α β : Type} {m : Movement σ}

/-- Whatever the state, an action moves it as allowed. -/
def Moves (m : Movement σ) (a : Action σ ε α) : Prop := ∀ s, m.rel s (a s).2

namespace Moves

theorem pure (x : α) : Moves m (pure x : Action σ ε α) := m.refl

theorem throw (e : ε) : Moves m (throw e : Action σ ε α) := m.refl

theorem ofExcept (f : ε → ε') (r : Except ε α) : Moves m (ofExcept f r : Action σ ε' α) := m.refl

theorem modify {f : σ → σ} (h : ∀ s, m.rel s (f s)) : Moves m (modify f : Action σ ε PUnit) := h

/-- One action after another. -/
theorem bind {a : Action σ ε α} {f : α → Action σ ε β} (ha : Moves m a) (hf : ∀ x, Moves m (f x)) :
    Moves m (a >>= f) := by
  intro s
  have hs := ha s
  rw [run_bind]
  rcases h : a s with ⟨e | x, t⟩
  · rw [h] at hs
    exact hs
  · rw [h] at hs
    exact m.trans hs (hf x t)

/-- An action that looks at the state first. -/
theorem get_bind {f : σ → Action σ ε α} (h : ∀ s, m.rel s (f s s).2) : Moves m (MonadState.get >>= f : Action σ ε α) :=
  h

theorem observe {a : Action σ ε α} (h : Moves m a) : Moves m (observe a : Action σ ε' (Except ε α)) := h

theorem adapt {a : Action σ ε α} (h : Moves m a) (f : ε → ε') : Moves m (a.adapt f : Action σ ε' α) := h

theorem map {a : Action σ ε α} (h : Moves m a) (f : α → β) : Moves m (f <$> a) := by
  rw [← bind_pure_comp]
  exact h.bind fun _ => .pure _

/-- A run has moved the state as allowed. -/
theorem of_run {a : Action σ ε α} (h : Moves m a) {s t : σ} {r : Except ε α} (hr : a s = (r, t)) : m.rel s t := by
  have hs := h s
  rwa [hr] at hs

/-- What keeps to a movement keeps to every freer one. -/
theorem mono {m' : Movement σ} {a : Action σ ε α} (h : Moves m a) (hm : ∀ {s t}, m.rel s t → m'.rel s t) :
    Moves m' a :=
  fun s => hm (h s)

end Moves

end Action

end SecurityKey
