import SecurityKey.Error
import SecurityKey.Proofs.Action

/-!
# Counting attempts at a PIN

Whoever keeps a PIN counts the attempts at it: a wrong PIN costs one, and where none is left every PIN is refused. The
host tells its caller how many are left after a refusal.

- `Verdict`: what becomes of a submitted PIN and of the counter;
- `Told`: what the host tells its caller of it;
- `Counters`: steps of a host, of which some submit PINs, and the counters of those;
- where every submission is told (`Counters.Tells`), the caller knows the counters after any sequence of steps
  (`Counters.Tells.reports`), since a counter at zero stays there (`Counters.Tells.left_after_of_zero`).
-/

namespace SecurityKey.Attempts

variable {wrong : Prop} {left left' : UInt8} {accepted : Bool} {τ π κ α : Type}

/-- What becomes of a PIN that is submitted, given how many attempts are left before it, and how many are left then. -/
inductive Verdict (wrong : Prop) (left : UInt8) : Bool → UInt8 → Prop
  | refused {left' : UInt8} (due : left = 0 ∨ wrong) (count : left'.toNat = left.toNat - 1) :
      Verdict wrong left false left'
  /-- The counter may be set to anything then. -/
  | accepted {left' : UInt8} (allowed : left ≠ 0) (right : ¬ wrong) : Verdict wrong left true left'

theorem toNat_pred (h : left ≠ 0) : (left - 1).toNat = left.toNat - 1 := by
  have hpositive := mt UInt8.toNat_inj.mp h
  rw [UInt8.toNat_zero] at hpositive
  have hone : 1 ≤ left := by
    rw [UInt8.le_iff_toNat_le, UInt8.toNat_one]
    omega
  exact UInt8.toNat_sub_of_le _ _ hone

/-- One attempt less after a wrong PIN. -/
theorem Verdict.of_wrong (h : left ≠ 0) (hw : wrong) : Verdict wrong left false (left - 1) :=
  .refused (.inr hw) (toNat_pred h)

/-- No attempt where there is none. -/
theorem Verdict.of_zero : Verdict wrong 0 false 0 := .refused (.inl rfl) rfl

/-- The error for a wrong PIN, given how many attempts are left after it. -/
def refusal (left : UInt8) : Error := if left = 0 then .blocked else .securityStatus (some left)

theorem refusal_eq_blocked_iff : refusal left = .blocked ↔ left = 0 := by
  unfold refusal
  split <;> simp [*]

/-- What the host tells of a PIN that was submitted. -/
inductive Told (wrong : Prop) (left : UInt8) : UInt8 → Except Error α → Prop
  | refused {left' : UInt8} (verdict : Verdict wrong left false left') : Told wrong left left' (.error (refusal left'))
  | accepted {left' : UInt8} {result : Except Error α} (verdict : Verdict wrong left true left')
      (unblocked : result ≠ .error .blocked) : Told wrong left left' result

namespace Told

variable {result : Except Error α}

/-- A wrong PIN costs an attempt, and the host tells what is left. -/
theorem of_wrong (h : Told wrong left left' result) (hw : wrong) :
    left'.toNat = left.toNat - 1 ∧ result = .error (refusal left') := by
  cases h with
  | refused verdict =>
    cases verdict with
    | refused due count => exact ⟨count, rfl⟩
  | accepted verdict _ =>
    cases verdict with
    | accepted allowed right => exact absurd hw right

/-- Without an attempt nothing is accepted. -/
theorem of_zero (h : Told wrong left left' result) (h0 : left = 0) : left' = 0 ∧ result = .error .blocked := by
  cases h with
  | refused verdict =>
    cases verdict with
    | refused due count =>
      have hleft : left' = 0 := by
        rw [h0] at count
        exact UInt8.toNat_inj.mp count
      rw [hleft]
      exact ⟨rfl, rfl⟩
  | accepted verdict _ =>
    cases verdict with
    | accepted allowed right => exact absurd h0 allowed

/-- Where no attempt is left, none is used. -/
theorem of_none : Told wrong 0 0 (.error .blocked : Except Error α) := .refused .of_zero

/-- Whoever is told that a PIN is blocked has no attempt left. -/
theorem left_of_blocked (h : Told wrong left left' result) (hr : result = .error .blocked) : left' = 0 := by
  cases h with
  | refused verdict => exact refusal_eq_blocked_iff.mp (Except.error.inj hr)
  | accepted verdict unblocked => exact absurd hr unblocked

end Told

/-! ## Sequences of steps -/

/-- Steps of a host, of which some submit PINs, and the counters of those PINs. -/
structure Counters (τ π κ α : Type) where
  step : π → Action τ Error α
  /-- The PIN that a step submits in a state, where it submits one. -/
  submits : τ → π → Option κ
  /-- What a step submits is not the PIN. -/
  Wrong : π → Prop
  /-- How many attempts at a PIN are left. -/
  left : τ → κ → UInt8

namespace Counters

variable (m : Counters τ π κ α)

/-- The state after several steps. -/
def after (t : τ) (steps : List π) : τ := steps.foldl (fun t p => (m.step p t).2) t

/-- The result of a step after several others. -/
def result (t : τ) (steps : List π) (p : π) : Except Error α := (m.step p (m.after t steps)).1

/-- Whatever steps are taken, the caller is told of the counters. -/
structure Reports (t : τ) : Prop where
  /-- A wrong PIN costs an attempt, where one is left. -/
  counted : ∀ steps p k, m.submits (m.after t steps) p = some k → m.Wrong p →
    (m.left (m.after t (steps ++ [p])) k).toNat = (m.left (m.after t steps) k).toNat - 1
  /-- The error for it tells how many are left, or that none is. -/
  told : ∀ steps p k, m.submits (m.after t steps) p = some k → m.Wrong p →
    m.result t steps p = .error (refusal (m.left (m.after t (steps ++ [p])) k))
  /-- A PIN that is blocked stays blocked. -/
  blocked : ∀ steps p between q k, m.submits (m.after t steps) p = some k → m.result t steps p = .error .blocked →
    m.submits (m.after t (steps ++ p :: between)) q = some k →
    m.result t (steps ++ p :: between) q = .error .blocked

/-- In every state that steps lead to, a submission is told, and nothing else changes a counter. -/
structure Tells (inReach : τ → Prop) : Prop where
  keeps : ∀ {t} p, inReach t → inReach (m.step p t).2
  submission : ∀ {t p k}, inReach t → m.submits t p = some k →
    Told (m.Wrong p) (m.left t k) (m.left (m.step p t).2 k) (m.step p t).1
  others : ∀ {t p k}, inReach t → m.submits t p ≠ some k → m.left (m.step p t).2 k = m.left t k

variable {m} {inReach : τ → Prop} {t : τ} {k : κ}

theorem after_append (t : τ) (steps later : List π) : m.after t (steps ++ later) = m.after (m.after t steps) later :=
  List.foldl_append ..

namespace Tells

theorem inReach_after (h : m.Tells inReach) (ht : inReach t) (steps : List π) : inReach (m.after t steps) := by
  induction steps generalizing t with
  | nil => exact ht
  | cons p steps ih => exact ih (h.keeps p ht)

/-- In one step a counter stays at zero. -/
theorem left_step_of_zero (h : m.Tells inReach) (ht : inReach t) (h0 : m.left t k = 0) (p : π) :
    m.left (m.step p t).2 k = 0 := by
  by_cases hp : m.submits t p = some k
  · exact ((h.submission ht hp).of_zero h0).1
  · rw [h.others ht hp, h0]

/-- A counter stays at zero. -/
theorem left_after_of_zero (h : m.Tells inReach) (ht : inReach t) (h0 : m.left t k = 0) (steps : List π) :
    m.left (m.after t steps) k = 0 := by
  induction steps generalizing t with
  | nil => exact h0
  | cons p steps ih => exact ih (h.keeps p ht) (h.left_step_of_zero ht h0 p)

/-- Where every submission is told, the caller knows the counters. -/
theorem reports (h : m.Tells inReach) (ht : inReach t) : m.Reports t := by
  have hlast : ∀ steps p, m.after t (steps ++ [p]) = (m.step p (m.after t steps)).2 := fun steps p =>
    after_append t steps [p]
  refine ⟨?counted, ?told, ?blocked⟩
  case counted =>
    intro steps p k hp hw
    rw [hlast]
    exact ((h.submission (h.inReach_after ht steps) hp).of_wrong hw).1
  case told =>
    intro steps p k hp hw
    rw [hlast]
    exact ((h.submission (h.inReach_after ht steps) hp).of_wrong hw).2
  case blocked =>
    intro steps p between q k hp hblocked hq
    have hreach := h.inReach_after ht steps
    have hzero : m.left (m.step p (m.after t steps)).2 k = 0 := (h.submission hreach hp).left_of_blocked hblocked
    have hstays : m.left (m.after t (steps ++ p :: between)) k = 0 := by
      rw [after_append]
      exact h.left_after_of_zero (h.keeps p hreach) hzero between
    exact ((h.submission (h.inReach_after ht _) hq).of_zero hstays).2

end Tells

end Counters

end SecurityKey.Attempts
