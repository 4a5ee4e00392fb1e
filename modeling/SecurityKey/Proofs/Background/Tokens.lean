import SecurityKey.Proofs.Background.Threads
import SecurityKey.Proofs.Fido.Reconnection

/-!
# PIN tokens of operations that end early

A worker that gives the connection back drops the PIN token if the outcome of its operation is settled by then. It
does not look again. So a cancellation or a deadline that comes later, while the worker waits for the user or before
it claims the outcome, leaves the token where it is.

- a worker that gives the connection back with a settled outcome drops the token (`System.dropped_of_finished`);
- one whose outcome is not settled keeps it, and the operation can be cancelled and end with the token still cached
  (`System.endsEarly_of_unfinished`);
- so the token is forgotten exactly when the outcome is settled before the attempt ends (`System.forgets_iff`).
-/

namespace SecurityKey.Background

/-! ## Operations that end early -/

namespace View

variable {i : Nat} {e : Executor} {v v' : View}

/-- An outcome that was settled from outside: nobody claimed it and the device is not gone. -/
structure Revoked (i : Nat) (v : View) : Prop extends v.Silenced i where
  kept : .abandoned i ∉ v.history

/-- Every move leaves it so. -/
theorem Revoked.move (h : v.Revoked i) (hm : Move e i v v') : v'.Revoked i := by
  obtain ⟨o, ho, hf⟩ := h.finished
  obtain ⟨o', d, ho', he⟩ := hm.effect ho
  refine ⟨h.toSilenced.move hm, fun ha => ?_⟩
  rcases he.mem_history.mp ha with ha | ha
  · exact h.kept ha
  · obtain rfl := Deed.abandon_of_mem ha
    have hopen : o.finished = false := he.allowed
    rw [hf] at hopen
    cases hopen

/-- The terminal status of such an operation is that it was cancelled. -/
theorem Revoked.cancelled {o : Operation} (h : v.Revoked i) (ho : v.operation = some o)
    (ht : o.status.isTerminal = true) : o.status = .cancelled := by
  have hb := h.ledger.present o ho
  cases hs : o.status with
  | cancelled => rfl
  | completed =>
    obtain ⟨a, ha⟩ := hb.completed hs
    exact absurd ha (h.unclaimed _)
  | failed =>
    rcases hb.failed hs with ⟨x, hx⟩ | ha
    · exact absurd hx (h.unclaimed _)
    · exact absurd ha h.kept
  | created | running => simp [hs, Status.isTerminal] at ht

/-- An outcome of the operation that the delivering thread has yet to report. -/
def InHand (v : View) : Prop := v.posted ≠ [] ∨ ∃ d, v.delivery = some d ∧ ∀ r, d ≠ .calling r

end View

namespace System

variable {σ : Type} {setup : Setup σ} {i : Nat} {o : Operation} {s s' t : System σ}

/-- The worker is done, and the operation was cancelled or given a timeout. -/
def EndedEarly (i : Nat) (s : System σ) : Prop :=
  ∃ o, s.operations[i]? = some o ∧ o.worker = .done ∧ (o.status = .cancelled ∨ .error .timeout ∈ s.delivered i)

/-- Whether the given token is cached all the time of a run. -/
def KeepsToken (setup : Setup σ) (token : Option Crypto.PinToken) : System σ → List Step → Prop
  | s, [] => s.connection.pinToken = token
  | s, step :: rest =>
    s.connection.pinToken = token ∧ ∀ t, s.step? setup step = some t → KeepsToken setup token t rest

/-- Whether the cached token is dropped before the operation ends early, in every continuation. -/
def Forgets (setup : Setup σ) (i : Nat) (s : System σ) : Prop :=
  ∀ steps s', s.replay? setup steps = some s' → EndedEarly i s' →
    ¬ KeepsToken setup s.connection.pinToken s steps

/-- Whether some continuation ends the operation early with the token still cached. -/
def EndsEarly (setup : Setup σ) (i : Nat) (s : System σ) : Prop :=
  ∃ steps s', s.replay? setup steps = some s' ∧ EndedEarly i s' ∧
    KeepsToken setup s.connection.pinToken s steps

theorem KeepsToken.start {token : Option Crypto.PinToken} : ∀ {steps : List Step}, KeepsToken setup token s steps →
    s.connection.pinToken = token
  | [], h => h
  | _ :: _, h => h.1

theorem EndedEarly.endsEarly (h : s.EndedEarly i) : EndsEarly setup i s := ⟨[], s, rfl, h, rfl⟩

/-- A step that keeps the token may come first. -/
theorem endsEarly_of_step {step : Step} (hs : s.step? setup step = some t)
    (ht : t.connection.pinToken = s.connection.pinToken) (h : EndsEarly setup i t) : EndsEarly setup i s := by
  obtain ⟨steps, s', hr, he, hk⟩ := h
  refine ⟨step :: steps, s', replay?_cons hs hr, he, rfl, fun t' ht' => ?_⟩
  obtain rfl := Option.some.inj (hs.symm.trans ht')
  exact ht ▸ hk

/-! ## Dropped tokens -/

/-- A settled outcome stays settled. -/
theorem finished_of_step {step : Step} (hs : s.step? setup step = some s') (ho : s.operations[i]? = some o)
    (hf : o.finished = true) : ∃ o', s'.operations[i]? = some o' ∧ o'.finished = true := by
  rcases view_step (i := i) hs with hv | hm
  · exact ⟨o, (congrArg View.operation hv).trans ho, hf⟩
  · obtain ⟨o', d, ho', he⟩ := hm.effect ho
    exact ⟨o', ho', he.finished (by simp [hf])⟩

/-- A worker that gives the connection back with a settled outcome leaves no token. -/
theorem pinToken_returning {r : Outcome} (ho : s.operations[i]? = some o) (hw : o.worker = .returning r)
    (hf : o.finished = true) (hs : s.step? setup (.worker i) = some s') : s'.connection.pinToken = none := by
  simp only [step?, ho, workerStep?, hw, hf, if_true, Option.bind_eq_bind, Option.bind_some, Option.some.injEq] at hs
  rw [← hs]
  rfl

/-- So as long as the token stays cached, the worker does not get on. -/
theorem returning_of_keepsToken {token : Option Crypto.PinToken} {r : Outcome} (ht : token ≠ none) :
    ∀ {steps : List Step} {s s' : System σ} {o : Operation}, s.replay? setup steps = some s' →
      s.operations[i]? = some o → o.worker = .returning r → o.finished = true → KeepsToken setup token s steps →
      ∃ o', s'.operations[i]? = some o' ∧ o'.worker = .returning r
  | [], _, _, o, hr, ho, hw, _, _ => ⟨o, Option.some.inj hr ▸ ho, hw⟩
  | step :: rest, s, s', o, hr, ho, hw, hf, hk => by
    obtain ⟨t, hs, hr⟩ := Option.bind_eq_some_iff.mp hr
    have hkt : KeepsToken setup token t rest := hk.2 t hs
    have hne : step ≠ .worker i := by
      rintro rfl
      exact ht (hkt.start ▸ pinToken_returning ho hw hf hs)
    have he : isEntering o = false := View.entered_of_worker hw nofun
    obtain ⟨o', ho', hw'⟩ := worker_of_step hs ho he hne
    obtain ⟨o'', ho'', hf'⟩ := finished_of_step hs ho hf
    obtain rfl := Option.some.inj (ho'.symm.trans ho'')
    exact returning_of_keepsToken ht hr ho' (hw'.trans hw) hf' hkt

/-- The books of all operations, and an operation whose outcome was settled from outside. -/
structure Revoked (i : Nat) (s : System σ) : Prop where
  books : ∀ k, (s.view k).Ledger k
  revoked : (s.view i).Revoked i

/-- Every step leaves it so. -/
theorem Revoked.step {step : Step} (h : s.Revoked i) (hs : s.step? setup step = some s') : s'.Revoked i where
  books k := ledger_step (h.books k) hs
  revoked := by
    rcases view_step (i := i) hs with hv | hm
    · exact hv ▸ h.revoked
    · exact h.revoked.move hm

/-- A worker that is done leaves a cancelled operation behind, if its status is terminal. -/
theorem Revoked.endedEarly (h : s.Revoked i) (ho : s.operations[i]? = some o) (hw : o.worker = .done)
    (ht : o.status.isTerminal = true) : s.EndedEarly i :=
  ⟨o, ho, hw, .inl (h.revoked.cancelled ho ht)⟩

/-! ## Ways to the end -/

/-- A step of a delivery leaves the connection alone. -/
theorem connection_deliver (k : Nat) (o : Operation) (s : System σ) (d : Delivery) :
    (s.deliver k o d).1.connection = s.connection := by
  match d with
  | .claiming r =>
    simp only [deliver]
    split <;> rfl
  | .reporting _ false | .reporting _ true => rfl
  | .calling r =>
    simp only [deliver]
    split <;> rfl

/-- The delivering thread leaves the connection alone. -/
theorem connection_executorStep (hs : s.executorStep? = some s') : s'.connection = s.connection := by
  unfold executorStep? at hs
  split at hs
  · obtain ⟨o, -, hs⟩ := Option.bind_eq_some_iff.mp hs
    exact Option.some.inj hs ▸ connection_deliver ..
  · split at hs
    · exact Option.some.inj hs ▸ rfl
    · cases hs

/-- A record that reached a terminal status is in one. -/
theorem isTerminal_reach {st : Status} (ht : st.isTerminal = true) (o : Operation) :
    (o.reach st).status.isTerminal = true := by
  unfold Operation.reach
  split
  · assumption
  · exact ht

/-- After a step of a delivery its outcome is still in hand, or the status is terminal. -/
theorem inHand_deliver {v v' : View} {d : Delivery} (h : v.InHand) (hd : v.delivery = some d)
    (hp : v'.posted = v.posted) (hn : v'.delivery = View.next o d) :
    v'.InHand ∨ (View.delivered o d).status.isTerminal = true := by
  rcases d with r | ⟨r, _ | _⟩ | r
  case claiming => exact .inl (.inr ⟨_, hn, by rintro _ ⟨⟩⟩)
  case reporting.false => exact .inr (isTerminal_reach rfl o)
  case reporting.true => exact .inr (isTerminal_reach (by cases r <;> rfl) o)
  case calling =>
    rcases h with h | ⟨d', hd', hne⟩
    · exact .inl (.inl (hp ▸ h))
    · exact absurd (Option.some.inj (hd.symm.trans hd')).symm (hne r)

/-- Every step of the delivering thread leaves less to do. -/
theorem backlog_executorStep (hs : s.executorStep? = some t) : t.backlog < s.backlog := by
  cases hd : s.delivery with
  | some p =>
    obtain ⟨k, d⟩ := p
    have hb := hs
    rw [executorStep?, hd] at hb
    obtain ⟨o, ho, -⟩ := Option.bind_eq_some_iff.mp hb
    obtain ⟨t', ht, hp, hn, -, -⟩ := executorStep_delivering hd ho
    obtain rfl := Option.some.inj (hs.symm.trans ht)
    unfold backlog
    rw [hp, hn, hd]
    rcases d with _ | ⟨_, _ | _⟩ | _ <;> simp [View.next]
  | none =>
    cases hp : s.posted with
    | nil =>
      rw [executorStep?, hd, hp] at hs
      cases hs
    | cons p rest =>
      obtain ⟨t', ht, hp', hd', -, -⟩ := executorStep_fetching hd hp
      obtain rfl := Option.some.inj (hs.symm.trans ht)
      unfold backlog
      rw [hp', hd', hd, hp]
      simp only [List.length_cons]
      omega

/-- A step of the delivering thread leaves the outcome in hand or the status terminal. -/
theorem exists_executorStep (h : s.Revoked i) (ho : s.operations[i]? = some o) (hh : (s.view i).InHand) :
    ∃ t o', s.executorStep? = some t ∧ t.operations[i]? = some o' ∧ o'.worker = o.worker ∧
      ((t.view i).InHand ∨ o'.status.isTerminal = true) := by
  cases hd : s.delivery with
  | some p =>
    obtain ⟨k, d⟩ := p
    have hk : (s.view k).delivery = some d := by simp [view, hd]
    obtain ⟨ok, hok⟩ : ∃ ok, s.operations[k]? = some ok := Option.ne_none_iff_exists'.mp fun hnone => by
      rw [(h.books k).absent hnone] at hk
      cases hk
    obtain ⟨t, ht, -, -, hv, hother⟩ := executorStep_delivering hd hok
    by_cases hi : k = i
    · subst hi
      obtain rfl := Option.some.inj (hok.symm.trans ho)
      exact ⟨t, View.delivered ok d, ht, congrArg View.operation hv, by simp,
        inHand_deliver hh hk (by rw [hv]; rfl) (by rw [hv]; rfl)⟩
    · have hsame := hother i hi
      exact ⟨t, o, ht, (congrArg View.operation hsame).trans ho, rfl, .inl (hsame ▸ hh)⟩
  | none =>
    cases hp : s.posted with
    | nil =>
      rcases hh with hne | ⟨d, hd', -⟩
      · simp [view, hp] at hne
      · simp [view, hd] at hd'
    | cons p rest =>
      obtain ⟨k, r⟩ := p
      obtain ⟨t, ht, -, -, ⟨l, -, hv⟩, hother⟩ := executorStep_fetching hd hp
      by_cases hi : k = i
      · subst hi
        have hhand : (t.view k).InHand := .inr ⟨.claiming r, by rw [hv], by rintro _ ⟨⟩⟩
        exact ⟨t, o, ht, (congrArg View.operation hv).trans ho, rfl, .inl hhand⟩
      · have hsame := hother i hi
        exact ⟨t, o, ht, (congrArg View.operation hsame).trans ho, rfl, .inl (hsame ▸ hh)⟩

/-- Once its worker is done, an operation whose status is terminal or whose outcome is in hand ends when the
delivering thread goes on. -/
theorem endsEarly_of_done (h : s.Revoked i) (ho : s.operations[i]? = some o) (hw : o.worker = .done)
    (hh : (s.view i).InHand ∨ o.status.isTerminal = true) : EndsEarly setup i s := by
  induction hn : s.backlog using Nat.strongRecOn generalizing s o with
  | _ n ih =>
    subst hn
    rcases hh with hh | ht
    · obtain ⟨t, o', ht, ho', hw', hh'⟩ := exists_executorStep h ho hh
      have hs : s.step? setup .executor = some t := ht
      exact endsEarly_of_step hs (congrArg _ (connection_executorStep ht))
        (ih _ (backlog_executorStep ht) (h.step hs) ho' (hw'.trans hw) hh' rfl)
    · exact (h.endedEarly ho hw ht).endsEarly

/-- A worker that goes on to a stage from which the operation ends early. -/
theorem endsEarly_of_worker (h : s.Revoked i) (ho : s.operations[i]? = some o)
    (hs : workerStep? setup i o s = some t) (ht : t.connection = s.connection)
    (hend : t.Revoked i → EndsEarly setup i t) : EndsEarly setup i s := by
  have hstep : s.step? setup (.worker i) = some t := by simp [step?, ho, hs]
  exact endsEarly_of_step hstep (congrArg _ ht) (hend (h.step hstep))

/-- The worker leaves the register and is done. -/
theorem endsEarly_of_releasing (h : s.Revoked i) (ho : s.operations[i]? = some o) (hw : o.worker = .releasing)
    (hh : (s.view i).InHand ∨ o.status.isTerminal = true) : EndsEarly setup i s := by
  have hs : workerStep? setup i o s = some ((s.release i).update i (Operation.work .done)) := by
    simp only [workerStep?, hw]
  exact endsEarly_of_worker h ho hs rfl fun hr =>
    endsEarly_of_done hr (operations_update (s := s.release i) ho _) rfl hh

/-- The worker reports a cancellation before an attempt. -/
theorem endsEarly_of_givingUp (h : s.Revoked i) (ho : s.operations[i]? = some o) (hw : o.worker = .givingUp) :
    EndsEarly setup i s := by
  have hs : workerStep? setup i o s = some (s.update i fun o => (o.reach .cancelled).work .releasing) := by
    simp only [workerStep?, hw]
  exact endsEarly_of_worker h ho hs rfl fun hr =>
    endsEarly_of_releasing hr (operations_update ho _) rfl (.inr (isTerminal_reach rfl o))

/-- The worker wakes up and finds the outcome settled. -/
theorem endsEarly_of_sleeping (h : s.Revoked i) (ho : s.operations[i]? = some o) (hw : o.worker = .sleeping)
    (hf : o.finished = true) : EndsEarly setup i s := by
  have hs : workerStep? setup i o s = some (s.update i (Operation.work .checking)) := by simp only [workerStep?, hw]
  refine endsEarly_of_worker h ho hs rfl fun hr => ?_
  have ho' := operations_update ho (Operation.work .checking)
  exact endsEarly_of_worker hr ho' rfl rfl fun hr =>
    endsEarly_of_givingUp hr (operations_update ho' _) (by simp [Operation.work, hf])

/-- The worker leaves because the device is gone and finds the outcome settled. -/
theorem endsEarly_of_leaving (h : s.Revoked i) (ho : s.operations[i]? = some o) (hw : o.worker = .leaving)
    (hf : o.finished = true) : EndsEarly setup i s := by
  have hs : workerStep? setup i o s = some ((s.update i fun o => o.finish.work (.left !o.finished)).tell
      (.breadcrumb "transport gone during operation")) := by
    simp only [workerStep?, hw, hf, if_true]
  refine endsEarly_of_worker h ho hs rfl fun hr => ?_
  have ho' : ((s.update i fun o => o.finish.work (.left !o.finished)).tell
      (.breadcrumb "transport gone during operation")).operations[i]? = some (o.finish.work (.left !o.finished)) :=
    operations_update ho _
  exact endsEarly_of_worker hr ho' rfl rfl fun hr =>
    endsEarly_of_releasing hr (operations_update ho' _) rfl (.inr (isTerminal_reach (by rw [hf]; rfl) _))

/-- The worker delivers the outcome itself and finds it settled. -/
theorem endsEarly_of_claiming {r : Outcome} (h : s.Revoked i) (ho : s.operations[i]? = some o)
    (hw : o.worker = .delivering (.claiming r)) (hf : o.finished = true) : EndsEarly setup i s := by
  have hs : workerStep? setup i o s = some ((s.update i Operation.finish).update i
      (Operation.work (.delivering (.reporting r false)))) := by
    simp only [workerStep?, hw, deliver, hf, if_true]
    rfl
  refine endsEarly_of_worker h ho hs rfl fun hr => ?_
  have ho' := operations_update (operations_update ho Operation.finish)
    (Operation.work (.delivering (.reporting r false)))
  exact endsEarly_of_worker hr ho' rfl rfl fun hr =>
    endsEarly_of_releasing hr (operations_update (operations_update ho' _) _) rfl (.inr (isTerminal_reach rfl _))

/-- The worker hands the outcome over and leaves it to be found settled. -/
theorem endsEarly_of_posting {r : Outcome} (h : s.Revoked i) (ho : s.operations[i]? = some o)
    (hw : o.worker = .posting r) (hf : o.finished = true) : EndsEarly setup i s := by
  cases he : setup.executor with
  | queue =>
    have hs : workerStep? setup i o s =
        some { s.update i (Operation.work .releasing) with posted := s.posted ++ [(i, r)] } := by
      simp only [workerStep?, hw, post, he]
    refine endsEarly_of_worker h ho hs rfl fun hr => ?_
    exact endsEarly_of_releasing hr (operations_update ho _) rfl (.inl (.inl (by simp [view])))
  | inline =>
    have hs : workerStep? setup i o s = some (s.update i (Operation.work (.delivering (.claiming r)))) := by
      simp only [workerStep?, hw, post, he]
    exact endsEarly_of_worker h ho hs rfl fun hr => endsEarly_of_claiming hr (operations_update ho _) rfl hf

/-- Whatever a worker does after an attempt, the operation ends if its outcome was settled from outside. -/
theorem endsEarly_of_afterAttempt {r : Outcome} (h : s.Revoked i) (ho : s.operations[i]? = some o)
    (hw : o.worker = (afterAttempt r).1) (hf : o.finished = true) : EndsEarly setup i s := by
  unfold afterAttempt at hw
  split at hw
  · exact endsEarly_of_posting h ho hw hf
  · exact endsEarly_of_sleeping h ho hw hf
  · split at hw
    · exact endsEarly_of_leaving h ho hw hf
    · exact endsEarly_of_posting h ho hw hf

/-- A worker that gives the connection back before the outcome is settled keeps the token. The operation may be
cancelled then and ends with the token still cached. -/
theorem endsEarly_of_unfinished {r : Outcome} (h : ∀ k, (s.view k).Ledger k) (ho : s.operations[i]? = some o)
    (hw : o.worker = .returning r) (hf : o.finished = false) : EndsEarly setup i s := by
  let t : System σ := { s.update i (Operation.work (afterAttempt r).1) with
    holder := none, events := s.events ++ (afterAttempt r).2 }
  have ht : t.operations[i]? = some (o.work (afterAttempt r).1) := operations_update ho _
  have hback : s.step? setup (.worker i) = some t := by
    simp only [step?, ho, Option.bind_eq_bind, Option.bind_some, workerStep?, hw, hf]
    rfl
  have hentered : isEntering (o.work (afterAttempt r).1) = false := by
    unfold afterAttempt
    repeat' split
    all_goals rfl
  have hcancel : t.step? setup (.cancelOperation i) = some (t.update i Operation.finish) := by
    simp [step?, ht, hentered]
  have hbooked := (h i).present o ho
  have hrevoked : (t.update i Operation.finish).Revoked i := by
    have hbooks := fun k => ledger_step (ledger_step (h k) hback) hcancel
    have hend := operations_update ht Operation.finish
    exact ⟨hbooks, ⟨hbooks i, ⟨_, hend, rfl⟩, hbooked.unclaimed hf⟩, hbooked.kept hf⟩
  exact endsEarly_of_step hback rfl (endsEarly_of_step hcancel rfl
    (endsEarly_of_afterAttempt hrevoked (operations_update ht _) rfl rfl))

end System

/-! ## A token that stays -/

open Fido.Session (tokenCard creationWithPin)

/-- A device that gives a token and then refuses the command. -/
def tokenSetup : Setup Simulated.Card where
  device := { card := Simulated.Card.card, breakdown? := fun _ => none, recover := id }
  config := .standard fun _ => Fido.Pin.pairOfOne
  executor := .inline
  deadline := none

/-- A run to the first attempt at a credential with a PIN. -/
def toAttempt : List Step := [.create (.create creationWithPin), .enter 0 true false, .worker 0, .worker 0, .worker 0]

/-- The attempt leaves a token. -/
theorem exists_attempt_tokenSetup : ∃ r t,
    System.attempt tokenSetup (.create creationWithPin) (.new tokenCard) = (r, t) ∧ t.pinToken ≠ none := by
  obtain ⟨info, s, hconnect, -, hinfo, hset, htoken, hrest⟩ := Fido.Session.connect_informed
    (.standard fun _ => Fido.Pin.pairOfOne) (s := .new tokenCard) ⟨rfl, rfl, rfl, rfl⟩ rfl ⟨rfl, rfl⟩
  obtain ⟨r, t, hmake, -, hcached, -⟩ := Fido.Session.token_of_makeCredential
    (.standard fun _ => Fido.Pin.pairOfOne) hrest rfl hinfo hset htoken
  have hexecute : Fido.execute Simulated.Card.card (.standard fun _ => Fido.Pin.pairOfOne) (.create creationWithPin)
      (.new tokenCard) = (r.map Fido.Answer.credential, t) := by
    have hctap2 : s.isCtap2 = true := by simp [Fido.Session.isCtap2, hinfo]
    unfold Fido.execute
    rw [Action.bind_of_ok hconnect]
    simp only [Action.run_bind, Action.run_get, hctap2, Fido.Command.kind, Fido.Operation.resolve, Action.ofExcept,
      Action.mapError_ok, Fido.Operation.execute, Action.run_map, hmake]
  refine ⟨r.map Fido.Answer.credential, t, ?_, hcached⟩
  simp only [System.attempt, tokenSetup, hexecute]

namespace System

/-- A run after which the worker gives the connection back with a token that its attempt acquired. -/
theorem exists_acquired : ∃ s o r t,
    (new (.new tokenCard)).replay? tokenSetup toAttempt = some s ∧ s.operations[0]? = some o ∧
      o.worker = .attempting ∧ o.finished = false ∧ s.connection.pinToken = none ∧
      s.step? tokenSetup (.worker 0) = some t ∧ t.operations[0]? = some (o.work (.returning r)) ∧
      t.connection.pinToken ≠ none := by
  obtain ⟨r, connection, hattempt, hcached⟩ := exists_attempt_tokenSetup
  obtain ⟨s, o, hr, ho, hw, hf, hc, hconnection⟩ : ∃ s o,
      (new (.new tokenCard)).replay? tokenSetup toAttempt = some s ∧ s.operations[0]? = some o ∧
        o.worker = .attempting ∧ o.finished = false ∧ o.command = .create creationWithPin ∧
          s.connection = .new tokenCard := ⟨_, _, rfl, rfl, rfl, rfl, rfl, rfl⟩
  have hs : s.step? tokenSetup (.worker 0) =
      some { s.update 0 (Operation.work (.returning r)) with connection } := by
    simp [step?, ho, workerStep?, hw, hc, hconnection, hattempt]
  exact ⟨s, o, r, _, hr, ho, hw, hf, by rw [hconnection]; rfl, hs, operations_update ho _, hcached⟩

/-! ## Forgotten tokens -/

variable {σ : Type} {setup : Setup σ} {i : Nat} {o : Operation} {s : System σ}

/-- The token that is cached at the end of an attempt is dropped before the operation ends early exactly when the
outcome is settled before the worker gives the connection back. -/
theorem forgets_iff {connection : Fido.Session σ} {steps : List Step} {r : Outcome}
    (hr : (new connection).replay? setup steps = some s) (ho : s.operations[i]? = some o)
    (hw : o.worker = .returning r) (ht : s.connection.pinToken ≠ none) : Forgets setup i s ↔ o.finished = true := by
  constructor
  · intro h
    refine Bool.of_not_eq_false fun hf => ?_
    have hend : EndsEarly setup i s := endsEarly_of_unfinished (ledger_replay hr) ho hw hf
    obtain ⟨after, s', hr', he, hk⟩ := hend
    exact h after s' hr' he hk
  · rintro hf after s' hr' ⟨o', ho', hdone, -⟩ hk
    obtain ⟨o'', ho'', hw'⟩ := returning_of_keepsToken ht hr' ho hw hf hk
    rw [Option.some.inj (ho'.symm.trans ho''), hw'] at hdone
    cases hdone

/-- That run is one in which the token is forgotten exactly when the outcome is settled by then. -/
theorem forgets_iff_acquired : ∃ s o r,
    (new (.new tokenCard)).replay? tokenSetup (toAttempt ++ [.worker 0]) = some s ∧ s.operations[0]? = some o ∧
      o.worker = .returning r ∧ s.connection.pinToken ≠ none ∧ (Forgets tokenSetup 0 s ↔ o.finished = true) := by
  obtain ⟨s, o, r, t, hr, -, -, -, -, hs, ho, hcached⟩ := exists_acquired
  have hr' := replay?_append hr (replay?_cons hs (show t.replay? tokenSetup [] = some t from rfl))
  exact ⟨t, _, r, hr', ho, rfl, hcached, forgets_iff hr' ho rfl hcached⟩

/-- Whether no operation that ends early leaves a token that its own attempt has acquired. -/
def ForgetsTokens (setup : Setup σ) : Prop :=
  ∀ (connection : Fido.Session σ) (steps : List Step) (s : System σ) (i : Nat) (o : Operation) (s' : System σ),
    (new connection).replay? setup steps = some s → s.operations[i]? = some o → o.worker = .attempting →
      s.connection.pinToken = none → s.step? setup (.worker i) = some s' → s'.connection.pinToken ≠ none →
        Forgets setup i s'

/-- A token may outlive the cancelled operation that acquired it: the cancellation comes after the worker has given
the connection back and before it claims the outcome. -/
theorem not_forgetsTokens_tokenSetup : ¬ ForgetsTokens tokenSetup := by
  intro h
  obtain ⟨s, o, r, t, hr, ho, hw, hf, hnone, hs, ho', hcached⟩ := exists_acquired
  have hforgets := h _ _ s 0 o t hr ho hw hnone hs hcached
  have hend : EndsEarly tokenSetup 0 t :=
    endsEarly_of_unfinished (fun k => ledger_step (ledger_replay hr k) hs) ho' rfl hf
  obtain ⟨after, s', hr', he, hk⟩ := hend
  exact hforgets after s' hr' he hk

end System

end SecurityKey.Background
