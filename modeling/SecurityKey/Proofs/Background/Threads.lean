import SecurityKey.Proofs.Background.Settlement

/-!
# Whose step changes what

A thread moves its own stage. So the worker of an operation that has entered the register stays where it is in every
step that is not its own (`System.worker_of_step`), its watchdog likewise (`System.stages_of_step`), and without a
deadline no step starts a watchdog (`System.Unwatched.step`).
-/

namespace SecurityKey.Background.System

variable {σ : Type} {setup : Setup σ} {i k : Nat} {o : Operation} {s s' : System σ}

/-- What every step keeps, every run keeps. -/
theorem replay_of_step {P : System σ → Prop}
    (hp : ∀ s step s', P s → s.step? setup step = some s' → P s') :
    ∀ {steps : List Step} {s s' : System σ}, s.replay? setup steps = some s' → P s → P s'
  | [], _, _, hr, h => Option.some.inj hr ▸ h
  | step :: rest, s, s', hr, h => by
    obtain ⟨t, hs, hr⟩ := Option.bind_eq_some_iff.mp hr
    exact replay_of_step hp hr (hp s step t h hs)

/-- Two runs in a row. -/
theorem replay?_append {before after : List Step} {t : System σ} :
    s.replay? setup before = some t → t.replay? setup after = some s' →
      s.replay? setup (before ++ after) = some s' := by
  induction before generalizing s with
  | nil =>
    intro hr hr'
    obtain rfl := Option.some.inj hr
    exact hr'
  | cons step rest ih =>
    intro hr hr'
    obtain ⟨u, hs, hr⟩ := Option.bind_eq_some_iff.mp hr
    exact replay?_cons hs (ih hr hr')

/-- The record of an operation after a change. -/
theorem operations_update (ho : s.operations[i]? = some o) (f : Operation → Operation) :
    (s.update i f).operations[i]? = some (f o) := by
  simp [update, ho]

/-- The record of an operation after a step of a delivery of it. -/
theorem operations_deliver (ho : s.operations[i]? = some o) (d : Delivery) :
    (s.deliver i o d).1.operations[i]? = some (View.delivered o d) :=
  congrArg View.operation (view_deliver ho d)

/-- The record of an operation after an outcome of it was handed over. -/
theorem operations_post (ho : s.operations[i]? = some o) (deliver : Delivery → Operation → Operation)
    (goOn : Operation → Operation) (r : Outcome) :
    (s.post setup deliver goOn i r).operations[i]? =
      some (match setup.executor with | .inline => deliver (.claiming r) o | .queue => goOn o) := by
  unfold post
  cases setup.executor
  · exact operations_update ho _
  · exact operations_update ho _

/-- A worker leaves the watchdog where it is. -/
theorem watchdog_workerStep (ho : s.operations[i]? = some o) (hs : workerStep? setup i o s = some s') :
    ∃ o', s'.operations[i]? = some o' ∧ o'.watchdog = o.watchdog := by
  unfold workerStep? at hs
  have hu := fun f => operations_update ho f
  split at hs <;> try simp only [Option.some.injEq, reduceCtorEq] at hs
  case h_2 | h_4 | h_10 => exact hs ▸ ⟨_, hu _, by simp [Operation.work]⟩
  case h_3 | h_6 | h_7 | h_8 => exact hs ▸ ⟨_, hu _, rfl⟩
  case h_5 =>
    split at hs
    · exact Option.some.inj hs ▸ ⟨_, hu _, rfl⟩
    · cases hs
  case h_9 =>
    rw [← hs]
    split <;> exact ⟨_, hu _, rfl⟩
  case h_11 r _ =>
    rw [← hs]
    refine ⟨_, operations_post ho .., ?_⟩
    cases setup.executor <;> rfl
  case h_12 d _ =>
    rw [← hs]
    exact ⟨_, operations_update (operations_deliver ho d) _, by simp [Operation.work]⟩
  case h_13 => exact hs ▸ ⟨_, operations_update (s := s.release i) ho _, rfl⟩

/-- A watchdog leaves the worker where it is. -/
theorem worker_watchdogStep (ho : s.operations[i]? = some o) (hs : watchdogStep? setup i o s = some s') :
    ∃ o', s'.operations[i]? = some o' ∧ o'.worker = o.worker := by
  unfold watchdogStep? at hs
  have hu := fun f => operations_update ho f
  split at hs <;> try simp only [Option.some.injEq, reduceCtorEq] at hs
  case h_2 => exact hs ▸ ⟨_, hu _, rfl⟩
  case h_3 =>
    split at hs <;> exact Option.some.inj hs ▸ ⟨_, hu _, rfl⟩
  case h_4 => exact hs ▸ ⟨_, operations_update (s := s.release i) ho _, rfl⟩
  case h_5 =>
    rw [← hs]
    refine ⟨_, operations_post ho .., ?_⟩
    cases setup.executor <;> rfl
  case h_6 d _ =>
    rw [← hs]
    exact ⟨_, operations_update (operations_deliver ho d) _, by simp [Operation.watch]⟩

/-- A step of the delivering thread leaves worker and watchdog where they are. -/
theorem stages_executorStep (ho : s.operations[i]? = some o) (hs : s.executorStep? = some s') :
    ∃ o', s'.operations[i]? = some o' ∧ o'.worker = o.worker ∧ o'.watchdog = o.watchdog := by
  cases hd : s.delivery with
  | some p =>
    obtain ⟨k, d⟩ := p
    rw [executorStep?, hd] at hs
    obtain ⟨ok, hk, hs⟩ := Option.bind_eq_some_iff.mp hs
    obtain rfl := Option.some.inj hs
    by_cases h : k = i
    · subst h
      obtain rfl := Option.some.inj (hk.symm.trans ho)
      exact ⟨_, operations_deliver ho d, by simp, by simp⟩
    · exact ⟨o, (congrArg View.operation (view_deliver_of_ne h ok d)).trans ho, rfl, rfl⟩
  | none =>
    rw [executorStep?, hd] at hs
    cases hp : s.posted with
    | nil => simp [hp] at hs
    | cons p rest =>
      simp only [hp, Option.some.injEq] at hs
      exact hs ▸ ⟨o, ho, rfl, rfl⟩

/-- A supersession leaves worker and watchdog where they are. -/
theorem stages_supersede (ho : s.operations[i]? = some o) :
    ∃ o', s.supersede.operations[i]? = some o' ∧ o'.worker = o.worker ∧ o'.watchdog = o.watchdog := by
  have hv := congrArg View.operation (view_supersede (i := i) (s := s))
  have hop : (s.view i).operation = some o := ho
  split at hv
  · rw [hop] at hv
    exact ⟨o.finish, hv, rfl, rfl⟩
  · exact ⟨o, hv.trans hop, rfl, rfl⟩

/-- Only its own threads move the stages of an operation, once it is in the register. -/
theorem stages_of_step {step : Step} (hs : s.step? setup step = some s') (ho : s.operations[i]? = some o)
    (he : ∀ worker watchdog, step ≠ .enter i worker watchdog) :
    ∃ o', s'.operations[i]? = some o' ∧ (step ≠ .worker i → o'.worker = o.worker) ∧
      (step ≠ .watchdog i → o'.watchdog = o.watchdog) := by
  have same : (∃ o', s'.operations[i]? = some o' ∧ o'.worker = o.worker ∧ o'.watchdog = o.watchdog) →
      ∃ o', s'.operations[i]? = some o' ∧ (step ≠ .worker i → o'.worker = o.worker) ∧
        (step ≠ .watchdog i → o'.watchdog = o.watchdog) :=
    fun ⟨o', ho', hw, hg⟩ => ⟨o', ho', fun _ => hw, fun _ => hg⟩
  have seen : s'.view i = s.view i → ∃ o', s'.operations[i]? = some o' ∧ o'.worker = o.worker ∧
      o'.watchdog = o.watchdog := fun hv => ⟨o, (congrArg View.operation hv).trans ho, rfl, rfl⟩
  cases step with
  | create c =>
    apply same
    simp only [step?] at hs
    split at hs
    · cases hs
    · obtain rfl := Option.some.inj hs
      exact ⟨o, by rw [List.getElem?_append_left (List.getElem?_eq_some_iff.mp ho).1, ho], rfl, rfl⟩
  | enter k worker watchdog =>
    apply same
    obtain ⟨ok, hk, hs⟩ := Option.bind_eq_some_iff.mp hs
    split at hs
    · obtain rfl := Option.some.inj hs
      have hne : k ≠ i := fun h => he worker watchdog (h ▸ rfl)
      obtain ⟨o', ho', hw, hg⟩ := stages_supersede ho
      exact ⟨o', (congrArg View.operation (view_enter_of_ne hne worker watchdog)).trans ho', hw, hg⟩
    · cases hs
  | cancel | close =>
    apply same
    simp only [step?] at hs
    split at hs
    · cases hs
    · exact Option.some.inj hs ▸ stages_supersede ho
  | cancelOperation k =>
    apply same
    obtain ⟨ok, hk, hs⟩ := Option.bind_eq_some_iff.mp hs
    split at hs
    · cases hs
    · obtain rfl := Option.some.inj hs
      by_cases h : k = i
      · subst h
        exact ⟨_, operations_update ho _, rfl, rfl⟩
      · exact ⟨o, (congrArg View.operation (view_update_of_ne h _)).trans ho, rfl, rfl⟩
  | worker k =>
    obtain ⟨ok, hk, hs⟩ := Option.bind_eq_some_iff.mp hs
    by_cases h : k = i
    · subst h
      obtain rfl := Option.some.inj (hk.symm.trans ho)
      obtain ⟨o', ho', hg⟩ := watchdog_workerStep ho hs
      exact ⟨o', ho', fun hne => absurd rfl hne, fun _ => hg⟩
    · exact same (seen (view_workerStep_of_ne h hs))
  | watchdog k =>
    obtain ⟨ok, hk, hs⟩ := Option.bind_eq_some_iff.mp hs
    by_cases h : k = i
    · subst h
      obtain rfl := Option.some.inj (hk.symm.trans ho)
      obtain ⟨o', ho', hw⟩ := worker_watchdogStep ho hs
      exact ⟨o', ho', fun _ => hw, fun hne => absurd rfl hne⟩
    · exact same (seen (view_watchdogStep_of_ne h hs))
  | executor => exact same (stages_executorStep ho hs)

/-- The worker of an operation in the register stays where it is in every step that is not its own. -/
theorem worker_of_step {step : Step} (hs : s.step? setup step = some s') (ho : s.operations[i]? = some o)
    (he : isEntering o = false) (hne : step ≠ .worker i) :
    ∃ o', s'.operations[i]? = some o' ∧ o'.worker = o.worker := by
  have henter : ∀ worker watchdog, step ≠ .enter i worker watchdog := by
    rintro worker watchdog rfl
    simp [step?, ho, he] at hs
  obtain ⟨o', ho', hw, -⟩ := stages_of_step hs ho henter
  exact ⟨o', ho', hw hne⟩

/-! ## Without a deadline -/

/-- No operation has a watchdog. -/
def Unwatched (s : System σ) : Prop := ∀ (i : Nat) (o : Operation), s.operations[i]? = some o → o.watchdog = .absent

/-- Without a deadline no step starts a watchdog. -/
theorem Unwatched.step {step : Step} (h : s.Unwatched) (hl : ∀ i, (s.view i).Ledger i) (hd : setup.deadline = none)
    (hs : s.step? setup step = some s') : s'.Unwatched := by
  intro i o' ho'
  cases ho : s.operations[i]? with
  | none =>
    obtain ⟨c, rfl, -⟩ := created_of_step (hl i) ho hs ho'
    rfl
  | some o =>
    have habs : o.watchdog = .absent := h i o ho
    by_cases he : ∃ worker watchdog, step = .enter i worker watchdog
    · obtain ⟨worker, watchdog, rfl⟩ := he
      obtain ⟨_, -, hs⟩ := Option.bind_eq_some_iff.mp hs
      split at hs
      · obtain rfl := Option.some.inj hs
        obtain ⟨o₁, ho₁, -, -⟩ := stages_supersede ho
        have hr := operations_update ho₁ fun o =>
          (o.work (if worker then .starting
            else .posting (.error (.protocol "failed to spawn operation thread")))).watch
            (if worker && watchdog && setup.deadline.isSome then .waiting else .absent)
        have hr' := Option.some.inj (hr.symm.trans ho')
        simp [← hr', hd, Operation.watch]
      · cases hs
    · have hne : step ≠ .watchdog i := by
        rintro rfl
        simp [step?, ho, watchdogStep?, habs] at hs
      obtain ⟨o₁, ho₁, -, hg⟩ := stages_of_step hs ho fun worker watchdog h => he ⟨worker, watchdog, h⟩
      exact Option.some.inj (ho₁.symm.trans ho') ▸ (hg hne).trans habs

/-- Before anything was submitted the books are empty and nobody has a watchdog. -/
theorem unwatched_new (connection : Fido.Session σ) :
    (∀ i, ((new connection).view i).Ledger i) ∧ (new connection).Unwatched :=
  ⟨fun i => view_new connection ▸ View.ledger_empty i, fun i o ho => by simp [new] at ho⟩

end SecurityKey.Background.System
