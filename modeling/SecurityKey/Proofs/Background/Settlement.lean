import SecurityKey.Proofs.Background.SingleFlight

/-!
# Who settles an outcome

Worker, watchdog, cancellation and supersession all want to settle the outcome of an operation, and whoever sets the
flag first does. This holds for both ways to deliver outcomes and for every order of the steps.

- `View.Effect` says what a move does to flag, status, callback and history, and every move has such an effect
  (`View.Move.effect`);
- `View.Booked` is what the history says of an operation, and every effect keeps it (`View.Booked.effect`): an outcome
  is claimed only while it is not settled, and only a claimed outcome is given to the callback;
- so the callback is started at most once and never after a cancellation that came before the claim, and the status
  moves forward only (`System.deliveredOnce`).
-/

namespace SecurityKey.Background

/-! ## Claimed outcomes -/

/-- The outcome that a delivery has claimed. -/
def Delivery.won? : Delivery → Option Outcome
  | claiming _ => none
  | reporting _ false => none
  | reporting r true => some r
  | calling r => some r

/-- The outcome that a worker has claimed to deliver. -/
def WorkerStage.won? : WorkerStage → Option Outcome
  | delivering d => d.won?
  | _ => none

/-- The outcome that a watchdog has claimed to deliver. -/
def WatchdogStage.won? : WatchdogStage → Option Outcome
  | delivering d => d.won?
  | _ => none

/-! ## Effects -/

/-- What a move does about the outcome of an operation. -/
inductive Deed
  | nothing
  /-- Say that the operation is running. -/
  | start
  /-- Say that it was cancelled. -/
  | giveUp
  /-- Claim the right to deliver. -/
  | claim (r : Outcome)
  /-- Claim the outcome because the device is gone. -/
  | abandon
  /-- Say what is delivered. -/
  | report (r : Outcome)
  /-- Say that the device is gone. -/
  | part
  /-- Start the callback. -/
  | call (r : Outcome)

namespace Deed

/-- What is noted of a deed. -/
def history (i : Nat) : Deed → List Happening
  | claim r => [.claimed i r]
  | abandon => [.abandoned i]
  | call r => [.called i r]
  | _ => []

/-- The record with the status that a deed asks for. -/
def apply (o : Operation) : Deed → Operation
  | start => o.reach .running
  | giveUp => o.reach .cancelled
  | report r => o.reach (System.deliveredStatus r)
  | part => o.reach .failed
  | _ => o

/-- Whether a deed settles the outcome. -/
def settles : Deed → Bool
  | claim _ => true
  | abandon => true
  | _ => false

/-- What a deed starts the callback with. -/
def called : Deed → List Outcome
  | call r => [r]
  | _ => []

variable {i : Nat} {r : Outcome} {d : Deed}

/-- Only a claim is noted as one. -/
theorem claim_of_mem (h : .claimed i r ∈ d.history i) : d = .claim r := by
  cases d <;> simp [history] at h
  rw [h]

/-- Only the claim of a worker whose device is gone is noted as one. -/
theorem abandon_of_mem (h : .abandoned i ∈ d.history i) : d = .abandon := by
  cases d <;> simp [history] at h
  rfl

/-- Only a start of the callback is noted as one. -/
theorem call_of_mem (h : r ∈ d.called) : d = .call r := by
  cases d <;> simp [called] at h
  rw [h]

end Deed

namespace View

variable {i : Nat} {e : Executor} {v v' : View} {o o' : Operation}

/-- An outcome that somebody has claimed and is about to report or to call back with. -/
def Won (v : View) (o : Operation) (r : Outcome) : Prop :=
  o.worker.won? = some r ∨ o.watchdog.won? = some r ∨ v.delivery.bind Delivery.won? = some r

/-- What has to be so for a deed. -/
def Allowed (v : View) (o : Operation) : Deed → Prop
  | .claim _ => o.finished = false
  | .abandon => o.finished = false
  | .report r => v.Won o r
  | .part => o.worker = .left true
  | .call r => v.Won o r ∧ o.callback = true
  | _ => True

/-- What a deed changes in a view and its record. -/
structure Effect (i : Nat) (d : Deed) (v v' : View) (o o' : Operation) : Prop where
  allowed : v.Allowed o d
  history : v'.history = v.history ++ d.history i
  status : o'.status = (d.apply o).status
  finished : (o.finished || d.settles) = true → o'.finished = true
  callback : o'.callback = (o.callback && d.called.isEmpty)
  /-- Nobody has claimed an outcome but by a claim. -/
  won : ∀ r, v'.Won o' r → v.Won o r ∨ d = .claim r
  /-- A worker leaves with the outcome only after it claimed it. -/
  parting : o'.worker = .left true → o.worker = .left true ∨ d = .abandon

theorem won_reach (st : Status) (v : View) (o : Operation) (r : Outcome) : v.Won (o.reach st) r ↔ v.Won o r := by
  simp [Won]

/-- A delivery leaves the worker where it is. -/
@[simp]
theorem worker_delivered (o : Operation) : ∀ d, (delivered o d).worker = o.worker
  | .claiming _ => rfl
  | .reporting _ false | .reporting _ true => Operation.worker_reach ..
  | .calling _ => rfl

/-- A delivery leaves the watchdog where it is. -/
@[simp]
theorem watchdog_delivered (o : Operation) : ∀ d, (delivered o d).watchdog = o.watchdog
  | .claiming _ => rfl
  | .reporting _ false | .reporting _ true => Operation.watchdog_reach ..
  | .calling _ => rfl

theorem Won.congr {r : Outcome} (hd : v'.delivery = v.delivery) (h : v'.Won o r) : v.Won o r := by
  rwa [Won, hd] at h

/-- A worker that goes on to a stage without a claim adds none. -/
theorem Won.of_work {r : Outcome} {stage : WorkerStage} (h : v.Won (o.work stage) r) (hs : stage.won? = none) :
    v.Won o r := by
  rcases h with h | h | h
  · cases hs.symm.trans h
  · exact .inr (.inl h)
  · exact .inr (.inr h)

/-- A watchdog that goes on to a stage without a claim adds none. -/
theorem Won.of_watch {r : Outcome} {stage : WatchdogStage} (h : v.Won (o.watch stage) r) (hs : stage.won? = none) :
    v.Won o r := by
  rcases h with h | h | h
  · exact .inl h
  · cases hs.symm.trans h
  · exact .inr (.inr h)

/-- A move that changes neither status nor callback and claims nothing. -/
theorem Effect.quiet (hh : v'.history = v.history) (hs : o'.status = o.status)
    (hf : o.finished = true → o'.finished = true) (hc : o'.callback = o.callback)
    (hw : ∀ r, v'.Won o' r → v.Won o r) (hp : o'.worker = .left true → o.worker = .left true) :
    Effect i .nothing v v' o o' where
  allowed := trivial
  history := by simp [hh, Deed.history]
  status := hs
  finished h := hf (by simpa [Deed.settles] using h)
  callback := by simp [hc, Deed.called]
  won r h := .inl (hw r h)
  parting h := .inl (hp h)

/-- A move that only reports a status. -/
theorem Effect.report {d : Deed} (ha : v.Allowed o d) (hd : d.history i = [] ∧ d.settles = false ∧ d.called = [])
    (hh : v'.history = v.history) (hs : o'.status = (d.apply o).status) (hf : o'.finished = o.finished)
    (hc : o'.callback = o.callback) (hw : ∀ r, v'.Won o' r → v.Won o r)
    (hp : o'.worker = .left true → o.worker = .left true) : Effect i d v v' o o' where
  allowed := ha
  history := by simp [hh, hd.1]
  status := hs
  finished h := by simpa [hf, hd.2.1] using h
  callback := by simp [hc, hd.2.2]
  won r h := .inl (hw r h)
  parting h := .inl (hp h)

/-- What one step of a delivery does. -/
def deed (o : Operation) : Delivery → Deed
  | .claiming r => if o.finished then .nothing else .claim r
  | .reporting _ false => .giveUp
  | .reporting r true => .report r
  | .calling r => if o.callback then .call r else .nothing

/-- Whichever thread delivers, one step of it has the same effect. -/
theorem Effect.deliver {d : Delivery} (hd : ∀ r, d.won? = some r → v.Won o r)
    (hh : v'.history = v.history ++ happened i o d) (hs : o'.status = (delivered o d).status)
    (hf : o'.finished = (delivered o d).finished) (hc : o'.callback = (delivered o d).callback)
    (hw : ∀ r, v'.Won o' r → v.Won o r ∨ (next o d).bind Delivery.won? = some r)
    (hp : o'.worker = .left true → o.worker = .left true) : Effect i (deed o d) v v' o o' := by
  match d with
  | .claiming r =>
    cases hfin : o.finished
    · have hdeed : deed o (.claiming r) = .claim r := by simp [deed, hfin]
      rw [hdeed]
      refine ⟨hfin, by simpa [happened, hfin, Deed.history] using hh, hs, fun _ => hf,
        by simpa [delivered, Operation.finish, Deed.called] using hc, fun r' h => ?_, fun h => .inl (hp h)⟩
      rcases hw r' h with h | h
      · exact .inl h
      · have hr : r = r' := by simpa [next, hfin, Delivery.won?] using h
        exact .inr (hr ▸ rfl)
    · have hdeed : deed o (.claiming r) = .nothing := by simp [deed, hfin]
      rw [hdeed]
      refine .quiet (by simpa [happened, hfin] using hh) hs (fun _ => hf) hc (fun r' h => ?_) hp
      rcases hw r' h with h | h
      · exact h
      · simp [next, hfin, Delivery.won?] at h
  | .reporting r false =>
    refine .report trivial ⟨rfl, rfl, rfl⟩ (by simpa [happened] using hh) hs (by simpa [delivered] using hf)
      (by simpa [delivered] using hc) (fun r' h => ?_) hp
    rcases hw r' h with h | h
    · exact h
    · simp [next] at h
  | .reporting r true =>
    refine .report (hd r rfl) ⟨rfl, rfl, rfl⟩ (by simpa [happened] using hh) hs (by simpa [delivered] using hf)
      (by simpa [delivered] using hc) (fun r' h => ?_) hp
    rcases hw r' h with h | h
    · exact h
    · have hr : r = r' := by simpa [next, Delivery.won?] using h
      exact hr ▸ hd r rfl
  | .calling r =>
    have hw' : ∀ r', v'.Won o' r' → v.Won o r' := fun r' h => (hw r' h).elim id fun h => by simp [next] at h
    cases hcb : o.callback
    · have hdeed : deed o (.calling r) = .nothing := by simp [deed, hcb]
      rw [hdeed]
      exact .quiet (by simpa [happened, hcb] using hh) hs (fun h => hf.trans h) (hc.trans hcb.symm) hw' hp
    · have hdeed : deed o (.calling r) = .call r := by simp [deed, hcb]
      rw [hdeed]
      exact ⟨⟨hd r rfl, hcb⟩, by simpa [happened, hcb, Deed.history] using hh, hs,
        fun h => hf.trans (by simpa [delivered, Deed.settles] using h), by simpa [delivered, Deed.called] using hc,
        fun r' h => .inl (hw' r' h), fun h => .inl (hp h)⟩

/-! ### The worker -/

/-- A worker that goes on without a claim. -/
theorem Effect.work {stage : WorkerStage} (hh : v'.history = v.history) (hd : v'.delivery = v.delivery)
    (hs : stage.won? = none) (hl : stage ≠ .left true) : Effect i .nothing v v' o (o.work stage) :=
  .quiet hh rfl id rfl (fun _ hr => (hr.congr hd).of_work hs) fun h => absurd h hl

/-- A worker that reports a status and goes on without a claim. -/
theorem Effect.workReport {d : Deed} {st : Status} {stage : WorkerStage} (ha : v.Allowed o d)
    (hd : d.history i = [] ∧ d.settles = false ∧ d.called = []) (hst : (o.reach st).status = (d.apply o).status)
    (hs : stage.won? = none) (hl : stage ≠ .left true) :
    Effect i d v (v.put ((o.reach st).work stage)) o ((o.reach st).work stage) :=
  .report ha hd rfl hst (by simp [Operation.work]) (by simp [Operation.work])
    (fun r (hr : v.Won _ r) => (won_reach ..).mp (hr.of_work hs)) fun h => absurd h hl

/-- An operation that enters is settled if it was the current one already. -/
theorem Effect.enter {stage : WorkerStage} {guard : WatchdogStage} (hs : stage = .starting ∨ ∃ r, stage = .posting r)
    (hg : guard = .waiting ∨ guard = .absent) :
    Effect i .nothing v ((v.put (((if v.isCurrent then o.finish else o).work stage).watch guard)).place true) o
      (((if v.isCurrent then o.finish else o).work stage).watch guard) := by
  have hstage : stage.won? = none ∧ stage ≠ .left true := by
    rcases hs with rfl | ⟨r, rfl⟩ <;> exact ⟨rfl, nofun⟩
  have hguard : guard.won? = none := by rcases hg with rfl | rfl <;> rfl
  have hwon : ∀ o₁ r, v.Won ((o₁.work stage).watch guard) r → v.Won o₁ r :=
    fun o₁ r hr => (hr.of_watch hguard).of_work hstage.1
  cases v.isCurrent with
  | false => exact .quiet rfl rfl id rfl (hwon o) fun h => absurd h hstage.2
  | true => exact .quiet rfl rfl (fun _ => rfl) rfl (hwon o.finish) fun h => absurd h hstage.2

/-- A worker whose device is gone claims the outcome unless it is settled. -/
theorem Effect.leave : ∃ d, Effect i d v
    ((v.put (o.finish.work (.left !o.finished))).note (if o.finished then [] else [.abandoned i])) o
    (o.finish.work (.left !o.finished)) := by
  have hwon : ∀ r, v.Won (o.finish.work (.left !o.finished)) r → v.Won o r := fun r hr => hr.of_work rfl
  cases hf : o.finished
  · refine ⟨.abandon, hf, rfl, rfl, fun _ => rfl, ?_, fun r hr => .inl (hwon r ?_), fun _ => .inr rfl⟩
    · simp [Operation.finish, Operation.work, Deed.called]
    · rw [hf]
      exact hr
  · refine ⟨.nothing, .quiet ?_ rfl (fun _ => rfl) rfl (fun r hr => hwon r ?_) nofun⟩
    · simp [note, put]
    · rw [hf]
      exact hr

/-- A worker whose device is gone reports what it found. -/
theorem Effect.part {won : Bool} (hw : o.worker = .left won) : ∃ d, Effect i d v
    (v.put ((o.reach (if won then .failed else .cancelled)).work .releasing)) o
    ((o.reach (if won then .failed else .cancelled)).work .releasing) := by
  cases won with
  | false => exact ⟨.giveUp, .workReport trivial ⟨rfl, rfl, rfl⟩ rfl rfl nofun⟩
  | true => exact ⟨.part, .workReport hw ⟨rfl, rfl, rfl⟩ rfl rfl nofun⟩

theorem won?_elim_worker (d : Option Delivery) :
    (d.elim WorkerStage.releasing .delivering).won? = d.bind Delivery.won? := by cases d <;> rfl

/-- The worker delivers. -/
theorem Effect.workerDelivers {d : Delivery} (hw : o.worker = .delivering d) : Effect i (deed o d) v
    ((v.put ((delivered o d).work ((next o d).elim .releasing .delivering))).note (happened i o d)) o
    ((delivered o d).work ((next o d).elim .releasing .delivering)) := by
  refine .deliver (fun r hr => .inl (by rw [hw]; exact hr)) rfl rfl rfl rfl (fun r hr => ?_) fun hl => ?_
  · rcases hr with hr | hr | hr
    · exact .inr ((won?_elim_worker (next o d)).symm.trans hr)
    · exact .inl (.inr (.inl ((congrArg WatchdogStage.won? (watchdog_delivered o d)).symm.trans hr)))
    · exact .inl (.inr (.inr hr))
  · have hstage : (next o d).elim WorkerStage.releasing .delivering = .left true := hl
    cases hn : next o d <;> rw [hn] at hstage <;> cases hstage

/-! ### The watchdog -/

/-- A watchdog that goes on without a claim. -/
theorem Effect.watch {stage : WatchdogStage} (hh : v'.history = v.history) (hd : v'.delivery = v.delivery)
    (hs : stage.won? = none) : Effect i .nothing v v' o (o.watch stage) :=
  .quiet hh rfl id rfl (fun _ hr => (hr.congr hd).of_watch hs) id

theorem won?_elim_watchdog (d : Option Delivery) :
    (d.elim WatchdogStage.done .delivering).won? = d.bind Delivery.won? := by cases d <;> rfl

/-- The watchdog delivers. -/
theorem Effect.watchdogDelivers {d : Delivery} (hw : o.watchdog = .delivering d) : Effect i (deed o d) v
    ((v.put ((delivered o d).watch ((next o d).elim .done .delivering))).note (happened i o d)) o
    ((delivered o d).watch ((next o d).elim .done .delivering)) := by
  refine .deliver (fun r hr => .inr (.inl (by rw [hw]; exact hr))) rfl rfl rfl rfl (fun r hr => ?_) fun hl => ?_
  · rcases hr with hr | hr | hr
    · exact .inl (.inl ((congrArg WorkerStage.won? (worker_delivered o d)).symm.trans hr))
    · exact .inr ((won?_elim_watchdog (next o d)).symm.trans hr)
    · exact .inl (.inr (.inr hr))
  · exact (worker_delivered o d).symm.trans hl

/-! ### The delivering thread -/

/-- The delivering thread takes up an outcome, which is not a claim. -/
theorem Effect.fetch {r : Outcome} {rest : List Outcome} :
    Effect i .nothing v { v with posted := rest, delivery := some (.claiming r) } o o := by
  refine .quiet rfl rfl id rfl (fun r' hr => ?_) id
  rcases hr with hr | hr | hr
  · exact .inl hr
  · exact .inr (.inl hr)
  · cases hr

/-- The delivering thread goes on. -/
theorem Effect.threadDelivers {d : Delivery} (hd : v.delivery = some d) : Effect i (deed o d) v
    (((v.put (delivered o d)).note (happened i o d)).goOn (next o d)) o (delivered o d) := by
  refine .deliver (fun r hr => .inr (.inr (by rw [hd]; exact hr))) rfl rfl rfl rfl (fun r hr => ?_) fun hl => ?_
  · rcases hr with hr | hr | hr
    · exact .inl (.inl ((congrArg WorkerStage.won? (worker_delivered o d)).symm.trans hr))
    · exact .inl (.inr (.inl ((congrArg WatchdogStage.won? (watchdog_delivered o d)).symm.trans hr)))
    · exact .inr hr
  · exact (worker_delivered o d).symm.trans hl

/-! ### Every move -/

/-- Every move of an operation has an effect. -/
theorem Move.effect (hm : Move e i v v') (ho : v.operation = some o) :
    ∃ o' d, v'.operation = some o' ∧ Effect i d v v' o o' := by
  have same : ∀ {o₁}, v.operation = some o₁ → o₁ = o := fun h => Option.some.inj (h.symm.trans ho)
  cases hm with
  | create c hn =>
    rw [hn] at ho
    cases ho
  | enter h he hs hg =>
    obtain rfl := same h
    exact ⟨_, _, rfl, .enter hs hg⟩
  | supersede hc => exact ⟨o.finish, _, by simp [ho], .quiet rfl rfl (fun _ => rfl) rfl (fun _ h => h) id⟩
  | cancel h he =>
    obtain rfl := same h
    exact ⟨_, _, rfl, .quiet rfl rfl (fun _ => rfl) rfl (fun _ h => h) id⟩
  | start h hw =>
    obtain rfl := same h
    exact ⟨_, .start, rfl, .workReport trivial ⟨rfl, rfl, rfl⟩ rfl rfl nofun⟩
  | check h hw =>
    obtain rfl := same h
    refine ⟨_, _, rfl, .work rfl rfl ?_ ?_⟩ <;> split <;> first | rfl | nofun
  | giveUp h hw =>
    obtain rfl := same h
    exact ⟨_, .giveUp, rfl, .workReport trivial ⟨rfl, rfl, rfl⟩ rfl rfl nofun⟩
  | hold h hw | attempt r h hw | wake h hw | workerBegins _ h hw | workerPosts _ h hw | workerReleases h hw =>
    obtain rfl := same h
    exact ⟨_, _, rfl, .work rfl rfl rfl nofun⟩
  | @giveBack o₁ r h hw =>
    obtain rfl := same h
    refine ⟨_, _, rfl, .work rfl rfl ?_ ?_⟩ <;> unfold System.afterAttempt <;> repeat' split
    all_goals first | rfl | nofun
  | leave h hw =>
    obtain rfl := same h
    obtain ⟨d, hd⟩ := Effect.leave (i := i) (v := v)
    exact ⟨_, d, rfl, hd⟩
  | part h hw =>
    obtain rfl := same h
    obtain ⟨d, hd⟩ := Effect.part (i := i) (v := v) hw
    exact ⟨_, d, rfl, hd⟩
  | workerDelivers h hw =>
    obtain rfl := same h
    exact ⟨_, _, rfl, .workerDelivers hw⟩
  | expire h hw | look h hw =>
    obtain rfl := same h
    refine ⟨_, _, rfl, .watch rfl rfl ?_⟩
    split <;> rfl
  | watchdogReleases h hw | watchdogBegins _ h hw | watchdogPosts _ h hw =>
    obtain rfl := same h
    exact ⟨_, _, rfl, .watch rfl rfl rfl⟩
  | watchdogDelivers h hw =>
    obtain rfl := same h
    exact ⟨_, _, rfl, .watchdogDelivers hw⟩
  | fetch hp hd => exact ⟨o, _, ho, .fetch⟩
  | threadDelivers h hd =>
    obtain rfl := same h
    exact ⟨_, _, rfl, .threadDelivers hd⟩

/-! ## What the history says -/

/-- What the history says of an operation with the given record. -/
structure Booked (i : Nat) (v : View) (o : Operation) : Prop where
  /-- An outcome that is not settled was not claimed. -/
  unclaimed : o.finished = false → ∀ r, .claimed i r ∉ v.history
  kept : o.finished = false → .abandoned i ∉ v.history
  /-- Not both delivered and abandoned. -/
  exclusive : .abandoned i ∈ v.history → ∀ r, .claimed i r ∉ v.history
  won : ∀ r, v.Won o r → .claimed i r ∈ v.history
  parting : o.worker = .left true → .abandoned i ∈ v.history
  /-- The callback was given what was claimed. -/
  called : ∀ r ∈ v.called, .claimed i r ∈ v.history
  once : v.called.length ≤ 1
  waiting : o.callback = true → v.called = []
  completed : o.status = .completed → ∃ a, .claimed i (.ok a) ∈ v.history
  failed : o.status = .failed → (∃ x, .claimed i (.error x) ∈ v.history) ∨ .abandoned i ∈ v.history

/-- Nothing is noted of an operation that was just created. -/
theorem Booked.new {c : Fido.Command} (hh : v.history = []) (hd : v.delivery = none) : v.Booked i (.new c) where
  unclaimed _ r := by simp [hh]
  kept _ := by simp [hh]
  exclusive _ r := by simp [hh]
  won r hw := by simp [Won, Operation.new, WorkerStage.won?, WatchdogStage.won?, hd] at hw
  parting hl := by cases hl
  called r hr := by simp [View.called, hh] at hr
  once := by simp [View.called, hh]
  waiting _ := by simp [View.called, hh]
  completed hs := by cases hs
  failed hs := by cases hs

/-- The history after a deed. -/
theorem Effect.mem_history {d : Deed} {x : Happening} (h : Effect i d v v' o o') :
    x ∈ v'.history ↔ x ∈ v.history ∨ x ∈ d.history i := by
  rw [h.history, List.mem_append]

/-- What the callback was started with, after a deed. -/
theorem Effect.called {d : Deed} (h : Effect i d v v' o o') : v'.called = v.called ++ d.called := by
  have hv : v'.called = (v.note (d.history i)).called := by simp only [View.called, note, h.history]
  have hd : (empty.note (d.history i)).called = d.called := by cases d <;> rfl
  rw [hv, called_note, hd]

/-- A status that was reached is the one before or the one asked for. -/
theorem status_reach {st st' : Status} (h : (o.reach st).status = st') : o.status = st' ∨ st = st' := by
  unfold Operation.reach at h
  split at h
  · exact .inl h
  · exact .inr h

/-- A response or an error was claimed by whoever reports it. -/
theorem Effect.reported {d : Deed} {st : Status} (h : Effect i d v v' o o') (hs : o'.status = st)
    (ht : st ≠ .running ∧ st ≠ .cancelled) :
    o.status = st ∨ (∃ r, v.Won o r ∧ System.deliveredStatus r = st) ∨ o.worker = .left true ∧ st = .failed := by
  have ha := h.allowed
  rw [h.status] at hs
  cases d with
  | start => exact (status_reach hs).imp_right fun h => absurd h.symm ht.1
  | giveUp => exact (status_reach hs).imp_right fun h => absurd h.symm ht.2
  | report r => exact (status_reach hs).imp_right fun h => .inl ⟨r, ha, h⟩
  | part => exact (status_reach hs).imp_right fun h => .inr ⟨ha, h.symm⟩
  | nothing | claim _ | abandon | call _ => exact .inl hs

/-- Every effect keeps the books. -/
theorem Booked.effect {d : Deed} (hb : v.Booked i o) (h : Effect i d v v' o o') : v'.Booked i o' := by
  have open' : o'.finished = false → o.finished = false ∧ d.settles = false := fun hf => by
    rw [← Bool.or_eq_false_iff]
    exact Bool.eq_false_iff.mpr fun hs => by rw [h.finished hs] at hf; cases hf
  have claimed : ∀ r, Happening.claimed i r ∈ v'.history → .claimed i r ∈ v.history ∨ d = .claim r := fun r hr =>
    (h.mem_history.mp hr).imp_right Deed.claim_of_mem
  have abandoned : Happening.abandoned i ∈ v'.history → .abandoned i ∈ v.history ∨ d = .abandon := fun hr =>
    (h.mem_history.mp hr).imp_right Deed.abandon_of_mem
  have old : ∀ {x}, x ∈ v.history → x ∈ v'.history := fun hx => h.mem_history.mpr (.inl hx)
  refine ⟨fun hf r hr => ?_, fun hf hr => ?_, fun ha r hr => ?_, fun r hr => ?_, fun hl => ?_, fun r hr => ?_, ?_,
    fun hc => ?_, fun hs => ?_, fun hs => ?_⟩
  · obtain ⟨hf, hd⟩ := open' hf
    rcases claimed r hr with hr | rfl
    · exact hb.unclaimed hf r hr
    · cases hd
  · obtain ⟨hf, hd⟩ := open' hf
    rcases abandoned hr with hr | rfl
    · exact hb.kept hf hr
    · cases hd
  · rcases abandoned ha with ha | rfl
    · rcases claimed r hr with hr | rfl
      · exact hb.exclusive ha r hr
      · exact hb.kept h.allowed ha
    · rcases claimed r hr with hr | hd
      · exact hb.unclaimed h.allowed r hr
      · cases hd
  · rcases h.won r hr with hr | rfl
    · exact old (hb.won r hr)
    · exact h.mem_history.mpr (.inr (by simp [Deed.history]))
  · rcases h.parting hl with hl | rfl
    · exact old (hb.parting hl)
    · exact h.mem_history.mpr (.inr (by simp [Deed.history]))
  · rw [h.called, List.mem_append] at hr
    rcases hr with hr | hr
    · exact old (hb.called r hr)
    · obtain rfl := Deed.call_of_mem hr
      exact old (hb.won r h.allowed.1)
  · rw [h.called]
    cases d with
    | call r => simp [hb.waiting h.allowed.2, Deed.called]
    | _ => simpa [Deed.called] using hb.once
  · rw [h.callback, Bool.and_eq_true] at hc
    rw [h.called, hb.waiting hc.1]
    cases d with
    | call r => cases hc.2
    | _ => rfl
  · rcases h.reported hs ⟨nofun, nofun⟩ with hs | ⟨r, hw, hr⟩ | ⟨-, hs⟩
    · obtain ⟨a, ha⟩ := hb.completed hs
      exact ⟨a, old ha⟩
    · cases r with
      | ok a => exact ⟨a, old (hb.won _ hw)⟩
      | error x => cases hr
    · cases hs
  · rcases h.reported hs ⟨nofun, nofun⟩ with hs | ⟨r, hw, hr⟩ | ⟨hl, -⟩
    · rcases hb.failed hs with ⟨x, hx⟩ | ha
      · exact .inl ⟨x, old hx⟩
      · exact .inr (old ha)
    · cases r with
      | ok a => cases hr
      | error x => exact .inl ⟨x, old (hb.won _ hw)⟩
    · exact .inr (old (hb.parting hl))

/-! ## Ledgers -/

/-- The books of an operation, created or not. -/
structure Ledger (i : Nat) (v : View) : Prop where
  absent : v.operation = none → v = .empty
  present : ∀ o, v.operation = some o → v.Booked i o

theorem ledger_empty (i : Nat) : Ledger i .empty where
  absent _ := rfl
  present _ h := by cases h

/-- An operation that does not exist can only be created. -/
theorem move_empty (hm : Move e i .empty v') : v' = .empty ∨ ∃ c, v' = empty.put (.new c) := by
  cases hm with
  | create c _ => exact .inr ⟨c, rfl⟩
  | supersede hc => cases hc
  | fetch hp => cases hp
  | attempt _ ho | workerBegins _ ho | workerPosts _ ho | watchdogBegins _ ho | watchdogPosts _ ho => cases ho
  | enter ho | cancel ho | start ho | check ho | giveUp ho | hold ho | giveBack ho | wake ho | leave ho | part ho
  | workerDelivers ho | workerReleases ho | expire ho | look ho | watchdogReleases ho | watchdogDelivers ho
  | threadDelivers ho => cases ho

/-- Every move keeps the books. -/
theorem Ledger.move (h : v.Ledger i) (hm : Move e i v v') : v'.Ledger i := by
  cases ho : v.operation with
  | some o =>
    obtain ⟨o', d, ho', he⟩ := hm.effect ho
    refine ⟨fun hn => ?_, fun o'' ho'' => ?_⟩
    · rw [ho'] at hn
      cases hn
    · rw [ho'] at ho''
      exact Option.some.inj ho'' ▸ (h.present o ho).effect he
  | none =>
    obtain rfl := h.absent ho
    rcases move_empty hm with rfl | ⟨c, rfl⟩
    · exact ledger_empty i
    · refine ⟨fun hn => (by cases hn), fun o' ho' => ?_⟩
      obtain rfl := Option.some.inj ho'
      exact .new rfl rfl

/-- An outcome that was settled by somebody who does not deliver it. -/
structure Silenced (i : Nat) (v : View) : Prop where
  ledger : v.Ledger i
  finished : ∃ o, v.operation = some o ∧ o.finished = true
  unclaimed : ∀ r, .claimed i r ∉ v.history

/-- Every move leaves it so. -/
theorem Silenced.move (h : v.Silenced i) (hm : Move e i v v') : v'.Silenced i := by
  obtain ⟨o, ho, hf⟩ := h.finished
  obtain ⟨o', d, ho', he⟩ := hm.effect ho
  refine ⟨h.ledger.move hm, ⟨o', ho', he.finished (by simp [hf])⟩, fun r hr => ?_⟩
  rcases he.mem_history.mp hr with hr | hr
  · exact h.unclaimed r hr
  · obtain rfl := Deed.claim_of_mem hr
    have hopen : o.finished = false := he.allowed
    rw [hf] at hopen
    cases hopen

/-- Nothing was and nothing will be delivered. -/
theorem Silenced.called (h : v.Silenced i) : v.called = [] := by
  obtain ⟨o, ho, -⟩ := h.finished
  exact List.eq_nil_iff_forall_not_mem.mpr fun r hr => h.unclaimed r ((h.ledger.present o ho).called r hr)

end View

/-! ## Statuses -/

/-- How a status may go on. -/
inductive Status.GoesOn : Status → Status → Prop
  | stay (st : Status) : GoesOn st st
  | run : GoesOn created running
  | finish {st st' : Status} (hs : st.isTerminal = false) (hs' : st'.isTerminal = true) : GoesOn st st'

/-- A terminal status stays. -/
theorem Status.GoesOn.of_terminal {st st' : Status} (h : st.GoesOn st') (ht : st.isTerminal = true) : st' = st := by
  cases h with
  | stay => rfl
  | run => cases ht
  | finish hs => rw [ht] at hs; cases hs

/-- A record reaches a terminal status or stays as it is. -/
theorem Status.GoesOn.reach {st : Status} (o : Operation) (hs : st.isTerminal = true) :
    o.status.GoesOn (o.reach st).status := by
  unfold Operation.reach
  split
  · exact .stay _
  · exact .finish (Bool.eq_false_iff.mpr ‹_›) hs

/-- The status goes forward with every effect. -/
theorem View.Effect.goesOn {i : Nat} {d : Deed} {v v' : View} {o o' : Operation} (h : View.Effect i d v v' o o') :
    o.status.GoesOn o'.status := by
  rw [h.status]
  cases d with
  | start =>
    cases hs : o.status <;> simp [Deed.apply, Operation.reach, hs, Status.isTerminal]
    case created => exact .run
    all_goals exact .stay _
  | giveUp => exact .reach o rfl
  | part => exact .reach o rfl
  | report r => cases r <;> exact .reach o rfl
  | nothing | claim _ | abandon | call _ => exact .stay _

/-! ## Runs -/

namespace System

variable {σ : Type} {setup : Setup σ} {i : Nat} {s s' : System σ} {connection : Fido.Session σ} {steps : List Step}

/-- In every run the books of every operation are kept. -/
theorem ledger_replay (hr : (new connection).replay? setup steps = some s) (i : Nat) : (s.view i).Ledger i :=
  view_replay (P := View.Ledger i) (fun _ _ h hm => h.move hm) hr (view_new connection ▸ View.ledger_empty i)

/-- A step keeps the books. -/
theorem ledger_step {step : Step} (h : (s.view i).Ledger i) (hs : s.step? setup step = some s') :
    (s'.view i).Ledger i := by
  rcases view_step (i := i) hs with hv | hm
  · rwa [hv]
  · exact h.move hm

/-- An operation comes into being as created. -/
theorem created_of_step {step : Step} {o : Operation} (h : (s.view i).Ledger i) (hn : s.operations[i]? = none)
    (hs : s.step? setup step = some s') (ho : s'.operations[i]? = some o) :
    ∃ c, o = .new c ∧ s'.view i = View.empty.put (.new c) := by
  have ho' : (s'.view i).operation = some o := ho
  rcases view_step (i := i) hs with hv | hm
  · have hnone : (s'.view i).operation = none := (congrArg View.operation hv).trans hn
    rw [hnone] at ho'
    cases ho'
  · rw [h.absent hn] at hm
    rcases View.move_empty hm with hv | ⟨c, hv⟩
    · rw [hv] at ho'
      cases ho'
    · rw [hv] at ho'
      exact ⟨c, (Option.some.inj ho').symm, hv⟩

/-- A silenced operation is never called back. -/
theorem delivered_of_silenced (h : (s.view i).Silenced i) (hr : s.replay? setup steps = some s') :
    s'.delivered i = [] := by
  have hs : (s'.view i).Silenced i := view_replay (P := View.Silenced i) (fun _ _ h hm => h.move hm) hr h
  rw [delivered_eq]
  exact hs.called

/-- What happened to an operation is in its view. -/
theorem mem_view_history {x : Happening} (hx : x.operation = i) : x ∈ (s.view i).history ↔ x ∈ s.history := by
  simp [view, hx]

/-- A step leaves an operation where it is, with a status that may have gone on. -/
theorem step_goesOn {step : Step} {o : Operation} (hs : s.step? setup step = some s') (ho : s.operations[i]? = some o) :
    ∃ o', s'.operations[i]? = some o' ∧ o.status.GoesOn o'.status := by
  rcases view_step (i := i) hs with hv | hm
  · exact ⟨o, (congrArg View.operation hv).trans ho, .stay _⟩
  · obtain ⟨o', d, ho', he⟩ := hm.effect ho
    exact ⟨o', ho', he.goesOn⟩

/-- A terminal status stays for the rest of a run. -/
theorem replay_terminal {o : Operation} (hr : s.replay? setup steps = some s') (ho : s.operations[i]? = some o)
    (ht : o.status.isTerminal = true) : ∃ o', s'.operations[i]? = some o' ∧ o'.status = o.status :=
  view_replay (P := fun v => ∃ o', v.operation = some o' ∧ o'.status = o.status)
    (fun _ _ ⟨o', ho', hs⟩ hm => by
      obtain ⟨o'', d, ho'', he⟩ := hm.effect ho'
      exact ⟨o'', ho'', (he.goesOn.of_terminal (hs ▸ ht)).trans hs⟩)
    hr ⟨o, ho, rfl⟩

/-- A call that stops the given operation, unless its outcome was claimed before. -/
def Stops (i : Nat) (s : System σ) (call : Step) : Prop :=
  call = .cancelOperation i ∨ call.supersedes = true ∧ s.current = some i

/-- What is current is settled by a supersession. -/
theorem finished_supersede {o : Operation} (hc : s.current = some i) (ho : s.operations[i]? = some o) :
    s.supersede.operations[i]? = some o.finish ∧ s.supersede.history = s.history := by
  simp [supersede, hc, update, ho]

/-- A call that stops an operation settles its outcome. -/
theorem finished_of_stops {call : Step} {o : Operation} (hc : s.Stops i call) (hs : s.step? setup call = some s')
    (ho : s.operations[i]? = some o) :
    (∃ o', s'.operations[i]? = some o' ∧ o'.finished = true) ∧ s'.history = s.history := by
  rcases hc with rfl | ⟨hcall, hcur⟩
  · obtain ⟨o', ho', hs⟩ := Option.bind_eq_some_iff.mp hs
    split at hs
    · cases hs
    · obtain rfl := Option.some.inj hs
      exact ⟨⟨o.finish, by simp [update, ho], rfl⟩, rfl⟩
  · obtain ⟨hop, hh⟩ := finished_supersede hcur ho
    cases call with
    | enter k worker watchdog =>
      obtain ⟨o', ho', hs⟩ := Option.bind_eq_some_iff.mp hs
      split at hs
      · obtain rfl := Option.some.inj hs
        refine ⟨?_, hh⟩
        by_cases hk : k = i
        · exact ⟨_, by simp [enter, update, hop, hk]; rfl, rfl⟩
        · exact ⟨o.finish, by simp [enter, update, hop, hk], rfl⟩
      · cases hs
    | cancel | close =>
      simp only [step?] at hs
      split at hs
      · cases hs
      · obtain rfl := Option.some.inj hs
        exact ⟨⟨o.finish, hop, rfl⟩, hh⟩
    | _ => cases hcall

/-- An operation whose outcome is settled without a claim is silenced. -/
theorem silenced_of_unclaimed {o : Operation} (hl : (s.view i).Ledger i) (ho : s.operations[i]? = some o)
    (hf : o.finished = true) (hc : ∀ r, .claimed i r ∉ s.history) : (s.view i).Silenced i :=
  ⟨hl, ⟨o, ho, hf⟩, fun r hr => hc r ((mem_view_history rfl).mp hr)⟩

/-- What holds of the callback and the status of an operation. -/
structure DeliveredOnce (setup : Setup σ) (i : Nat) (s : System σ) : Prop where
  /-- The callback was started at most once. -/
  once : (s.delivered i).length ≤ 1
  /-- A supersession or cancellation before the claim keeps it from being started at all. -/
  stopped : ∀ call s', s.Stops i call → s.step? setup call = some s' → (∀ r, .claimed i r ∉ s.history) →
    ∀ after s'', s'.replay? setup after = some s'' → s''.delivered i = []
  /-- So does the claim of a worker whose device is gone. -/
  abandoned : .abandoned i ∈ s.history → ∀ after s', s.replay? setup after = some s' → s'.delivered i = []
  /-- An operation comes into being as created. -/
  begins : s.operations[i]? = none → ∀ step s' o, s.step? setup step = some s' → s'.operations[i]? = some o →
    o.status = .created
  /-- From there its status goes forward. -/
  goesOn : ∀ o, s.operations[i]? = some o → ∀ step s', s.step? setup step = some s' →
    ∃ o', s'.operations[i]? = some o' ∧ o.status.GoesOn o'.status
  /-- A terminal status is the last one. -/
  final : ∀ o, s.operations[i]? = some o → o.status.isTerminal = true → ∀ after s',
    s.replay? setup after = some s' → ∃ o', s'.operations[i]? = some o' ∧ o'.status = o.status

/-- In every run, whatever the order of its steps and whoever delivers, the callback of every operation is started at
most once and only for an outcome that nobody settled before, and the status only moves forward. -/
theorem deliveredOnce (hr : (new connection).replay? setup steps = some s) (i : Nat) : DeliveredOnce setup i s := by
  have hl : (s.view i).Ledger i := ledger_replay hr i
  refine ⟨?_, fun call s' hc hs hn after s'' hr' => ?_, fun ha after s' hr' => ?_, fun hn step s' o hs ho => ?_,
    fun o ho step s' hs => step_goesOn hs ho, fun o ho ht after s' hr' => replay_terminal hr' ho ht⟩
  · rw [delivered_eq]
    cases ho : (s.view i).operation with
    | none => simp [hl.absent ho, View.called, View.empty]
    | some o => exact (hl.present o ho).once
  · have ho : ∃ o, s.operations[i]? = some o := by
      cases ho : s.operations[i]? with
      | some o => exact ⟨o, rfl⟩
      | none =>
        rcases hc with rfl | ⟨-, hcur⟩
        · simp [step?, ho] at hs
        · have he : (s.view i).isCurrent = false := by rw [hl.absent ho]; rfl
          simp [view, hcur] at he
    obtain ⟨o, ho⟩ := ho
    obtain ⟨⟨o', ho', hf⟩, hh⟩ := finished_of_stops hc hs ho
    exact delivered_of_silenced (silenced_of_unclaimed (ledger_step hl hs) ho' hf (by rwa [hh])) hr'
  · have hv : .abandoned i ∈ (s.view i).history := (mem_view_history rfl).mpr ha
    cases ho : (s.view i).operation with
    | none => simp [hl.absent ho, View.empty] at hv
    | some o =>
      have hb := hl.present o ho
      refine delivered_of_silenced ⟨hl, ⟨o, ho, ?_⟩, hb.exclusive hv⟩ hr'
      exact Bool.of_not_eq_false fun hf => hb.kept hf hv
  · obtain ⟨c, rfl, -⟩ := created_of_step hl hn hs ho
    rfl

/-- It was started once where it was posted before the next submission. -/
theorem deliveredOnce_postedBefore : ∃ s,
    (new (.new ())).replay? unreachable (postedBefore ++ List.replicate 4 .executor) = some s ∧
      (s.delivered 0).length = 1 ∧ DeliveredOnce unreachable 0 s := by
  refine ⟨_, rfl, rfl, ?_⟩
  have hr : (new (.new ())).replay? unreachable (postedBefore ++ List.replicate 4 .executor) = some _ := rfl
  exact deliveredOnce hr 0

end System

end SecurityKey.Background
