import SecurityKey.Proofs.Background.Threads

/-!
# Whether reported statuses are true

A claim and the report of it are two steps. Whoever finds the outcome settled reports that the operation was cancelled,
and may be faster with it than the thread that claimed the outcome and is about to call back: the first terminal
status is the one that stays.

- what is reported as completed or failed is so in every run (`System.told_completed`, `System.told_failed`);
- without a watchdog the outcome is carried by one thread after the other (`View.Alone`), so that nobody claims what
  another one finds settled, and what is reported as cancelled is never delivered (`System.told_of_unwatched`);
- with a watchdog the worker may report a cancellation between its claim and its report
  (`System.not_truthful_of_deadline`);
- so statuses are true exactly without a deadline (`System.truthful_iff`).
-/

namespace SecurityKey.Background

/-! ## One thread at a time -/

/-- Stages of a worker that found the outcome settled. -/
def WorkerStage.Loses : WorkerStage → Prop
  | givingUp => True
  | left false => True
  | delivering (.reporting _ false) => True
  | _ => False

namespace View

variable {i : Nat} {e : Executor} {v v' : View} {o o' : Operation}

/-- No outcome of the operation was claimed. -/
def Unclaimed (i : Nat) (v : View) : Prop := ∀ r, .claimed i r ∉ v.history

/-- Only the history tells of claims. -/
theorem Unclaimed.congr (h : v.Unclaimed i) (hh : v'.history = v.history) : v'.Unclaimed i := by
  rw [Unclaimed, hh]
  exact h

/-- Whoever carries the outcome has not claimed it. -/
def Ahead (v : View) (o : Operation) : Prop :=
  ¬ o.worker.IsOver ∧ o.worker.won? = none ∨ v.posted ≠ [] ∨ ∃ d, v.delivery = some d ∧ d.won? = none

/-- Whoever carries the outcome has found it settled. -/
def Losing (v : View) (o : Operation) : Prop := o.worker.Loses ∨ ∃ r, v.delivery = some (.reporting r false)

/-- What is known of an operation without a watchdog. -/
structure Alone (i : Nat) (v : View) (o : Operation) : Prop where
  /-- A worker that is not done with the outcome has not handed it over. -/
  busy : ¬ o.worker.IsOver → v.posted = [] ∧ v.delivery = none
  single : v.posted = [] ∨ v.delivery = none ∧ ∃ r, v.posted = [r]
  /-- Nobody else claims it. -/
  ahead : v.Ahead o → v.Unclaimed i
  losing : v.Losing o → o.finished = true
  /-- What is reported as cancelled was settled without a claim. -/
  cancelled : o.status = .cancelled → o.finished = true ∧ v.Unclaimed i

/-- An operation that was just created. -/
theorem Alone.new (c : Fido.Command) : (empty.put (.new c)).Alone i (.new c) where
  busy _ := ⟨rfl, rfl⟩
  single := .inl rfl
  ahead _ r hr := by cases hr
  losing hl := by
    rcases hl with hl | ⟨r, hr⟩
    · exact hl.elim
    · cases hr
  cancelled hs := by cases hs

/-- A worker without a claim goes on, and claims nothing by it. -/
theorem Alone.work (h : v.Alone i o) (hn : ¬ o.worker.IsOver) (hw : o.worker.won? = none)
    (hp : v'.posted = v.posted) (hd : v'.delivery = v.delivery)
    (hh : ∀ r, .claimed i r ∈ v'.history → .claimed i r ∈ v.history) (hl : o'.worker.Loses → o'.finished = true)
    (hs : o'.status = .cancelled → o'.finished = true) : v'.Alone i o' := by
  obtain ⟨hp₀, hd₀⟩ := h.busy hn
  have hu : v'.Unclaimed i := fun r hr => h.ahead (.inl ⟨hn, hw⟩) r (hh r hr)
  refine ⟨fun _ => ⟨hp.trans hp₀, hd.trans hd₀⟩, .inl (hp.trans hp₀), fun _ => hu, fun hl' => ?_,
    fun hc => ⟨hs hc, hu⟩⟩
  rcases hl' with hl' | ⟨r, hr⟩
  · exact hl hl'
  · rw [hd, hd₀] at hr
    cases hr

/-- A settled outcome stays carried by one thread. -/
theorem Alone.finish (h : v.Alone i o) (hp : v'.posted = v.posted) (hd : v'.delivery = v.delivery)
    (hh : v'.history = v.history) : v'.Alone i o.finish where
  busy := by rw [hp, hd]; exact h.busy
  single := by rw [hp, hd]; exact h.single
  ahead ha := by
    have ha' : v.Ahead o := by rwa [Ahead, hp, hd] at ha
    exact (h.ahead ha').congr hh
  losing _ := rfl
  cancelled hc := ⟨rfl, (h.cancelled hc).2.congr hh⟩

/-- Before its claim, a delivery is the only thread that could claim the outcome. -/
theorem Alone.unclaimed {d : Delivery} (h : v.Alone i o) (hd : o.worker = .delivering d ∨ v.delivery = some d)
    (hw : d.won? = none) : v.Unclaimed i := by
  refine h.ahead ?_
  rcases hd with hd | hd
  · exact .inl ⟨by simp [hd, WorkerStage.IsOver], by rw [hd]; exact hw⟩
  · exact .inr (.inr ⟨d, hd, hw⟩)

/-- What is still to be claimed after a step of a delivery was found settled in it. -/
theorem unclaimed_of_next {d d' : Delivery} (hu : d.won? = none → v.Unclaimed i) (hd' : next o d = some d')
    (hw : d'.won? = none) (hh : v'.history = v.history ++ happened i o d) : v'.Unclaimed i := by
  rcases d with r | ⟨r, _ | _⟩ | r
  case claiming =>
    obtain rfl := Option.some.inj hd'
    have hfin : o.finished = true := by
      cases hfin : o.finished
      · simp [hfin, Delivery.won?] at hw
      · rfl
    exact (hu rfl).congr (by simpa [happened, hfin] using hh)
  case reporting.true =>
    obtain rfl := Option.some.inj hd'
    cases hw
  all_goals cases hd'

/-- A delivery that turns out to be too late was about a settled outcome. -/
theorem finished_of_next {d : Delivery} {r : Outcome} (h : next o d = some (.reporting r false)) :
    (delivered o d).finished = true := by
  rcases d with _ | ⟨_, _ | _⟩ | _
  case claiming => rfl
  all_goals cases h

/-- What a step of a delivery reports as cancelled was settled without a claim. -/
theorem Alone.cancelled_delivered {d : Delivery} (h : v.Alone i o)
    (hd : o.worker = .delivering d ∨ v.delivery = some d) (hh : v'.history = v.history ++ happened i o d)
    (hc : (delivered o d).status = .cancelled) : (delivered o d).finished = true ∧ v'.Unclaimed i := by
  rcases d with r | ⟨r, _ | _⟩ | r
  case claiming =>
    obtain ⟨hfin, hu⟩ := h.cancelled hc
    exact ⟨rfl, hu.congr (by simpa [happened, hfin] using hh)⟩
  case reporting.false =>
    have hfin : o.finished = true := h.losing <| by
      rcases hd with hd | hd
      · exact .inl (by rw [hd]; trivial)
      · exact .inr ⟨r, hd⟩
    exact ⟨by simpa [delivered], (h.unclaimed hd rfl).congr (by simpa [happened] using hh)⟩
  case reporting.true =>
    have hc' : o.status = .cancelled := (status_reach hc).resolve_right (by cases r <;> rintro ⟨⟩)
    obtain ⟨hfin, hu⟩ := h.cancelled hc'
    exact ⟨by simpa [delivered], hu.congr (by simpa [happened] using hh)⟩
  case calling =>
    obtain ⟨hfin, hu⟩ := h.cancelled hc
    refine ⟨hfin, fun r' hr' => ?_⟩
    rw [hh] at hr'
    rcases List.mem_append.mp hr' with hr' | hr'
    · exact hu r' hr'
    · simp [happened] at hr'

/-- A worker that is done with the outcome does not lose. -/
theorem not_loses_of_isOver {stage : WorkerStage} (h : stage.IsOver) : ¬ stage.Loses := by
  cases stage <;> simp_all [WorkerStage.IsOver, WorkerStage.Loses]

/-- Whoever carries the outcome delivers it. -/
theorem Alone.deliver {d : Delivery} (h : v.Alone i o) (hd : o.worker = .delivering d ∨ v.delivery = some d)
    (hh : v'.history = v.history ++ happened i o d) (hf : o'.finished = (delivered o d).finished)
    (hs : o'.status = (delivered o d).status) (hp : v'.posted = []) (hb : ¬ o'.worker.IsOver → v'.delivery = none)
    (hw : o'.worker.IsOver ∨ ∃ d', o'.worker = .delivering d')
    (hn : ∀ d', o'.worker = .delivering d' ∨ v'.delivery = some d' → next o d = some d') : v'.Alone i o' := by
  refine ⟨fun hb' => ⟨hp, hb hb'⟩, .inl hp, fun ha => ?_, fun hl => ?_, fun hc => ?_⟩
  · obtain ⟨d', hd', hw'⟩ : ∃ d', next o d = some d' ∧ d'.won? = none := by
      rcases ha with ⟨hover, hnone⟩ | hne | ⟨d', hd', hw'⟩
      · obtain ⟨d', hd'⟩ := hw.resolve_left hover
        exact ⟨d', hn d' (.inl hd'), by rw [hd'] at hnone; exact hnone⟩
      · exact absurd hp hne
      · exact ⟨d', hn d' (.inr hd'), hw'⟩
    exact unclaimed_of_next (h.unclaimed hd) hd' hw' hh
  · obtain ⟨r, hr⟩ : ∃ r, next o d = some (.reporting r false) := by
      rcases hl with hl | ⟨r, hr⟩
      · obtain ⟨d', hd'⟩ := hw.resolve_left fun hover => not_loses_of_isOver hover hl
        rw [hd'] at hl
        rcases d' with _ | ⟨r, _ | _⟩ | _
        case reporting.false => exact ⟨r, hn _ (.inl hd')⟩
        all_goals exact hl.elim
      · exact ⟨r, hn _ (.inr hr)⟩
    exact hf.trans (finished_of_next hr)
  · rw [hf]
    exact h.cancelled_delivered hd hh (hs ▸ hc)

/-! ### The worker -/

/-- A worker without a claim that goes on without a word about the status. -/
theorem Alone.goOn {stage next : WorkerStage} (h : v.Alone i o) (hw : o.worker = stage) (hn : ¬ stage.IsOver)
    (hwon : stage.won? = none) (hl : next.Loses → o.finished = true) : (v.put (o.work next)).Alone i (o.work next) :=
  h.work (hw ▸ hn) (hw ▸ hwon) rfl rfl (fun _ hr => hr) hl fun hc => (h.cancelled hc).1

/-- A worker without a claim that reports a status, and goes on to what does not lose. Only what was settled may be
reported as cancelled. -/
theorem Alone.says {st : Status} {stage next : WorkerStage} (h : v.Alone i o) (hw : o.worker = stage)
    (hn : ¬ stage.IsOver) (hwon : stage.won? = none) (hnext : ¬ next.Loses)
    (hst : st = .cancelled → o.finished = true) :
    (v.put ((o.reach st).work next)).Alone i ((o.reach st).work next) := by
  refine h.work (hw ▸ hn) (hw ▸ hwon) rfl rfl (fun _ hr => hr) (fun hl => absurd hl hnext) fun hc => ?_
  have hf : o.finished = true := (status_reach hc).elim (fun hs => (h.cancelled hs).1) hst
  simpa [Operation.work]

/-- An operation that enters has no worker yet. -/
theorem Alone.enter {stage : WorkerStage} {guard : WatchdogStage} (h : v.Alone i o)
    (he : System.isEntering o = true) (hs : stage = .starting ∨ ∃ r, stage = .posting r) :
    ((v.put (((if v.isCurrent then o.finish else o).work stage).watch guard)).place true).Alone i
      (((if v.isCurrent then o.finish else o).work stage).watch guard) := by
  have habs : o.worker = .absent := by
    unfold System.isEntering at he
    split at he
    · assumption
    · cases he
  have hkeep : (if v.isCurrent then o.finish else o).status = .cancelled →
      (if v.isCurrent then o.finish else o).finished = true := by
    split
    · exact fun _ => rfl
    · exact fun hc => (h.cancelled hc).1
  refine h.work (by simp [habs, WorkerStage.IsOver]) (by rw [habs]; rfl) rfl rfl (fun _ hr => hr) (fun hl => ?_) hkeep
  rcases hs with rfl | ⟨r, rfl⟩ <;> exact hl.elim

/-- A worker whose device is gone claims nothing to deliver. -/
theorem Alone.leave (h : v.Alone i o) (hw : o.worker = .leaving) :
    ((v.put (o.finish.work (.left !o.finished))).note (if o.finished then [] else [.abandoned i])).Alone i
      (o.finish.work (.left !o.finished)) := by
  refine h.work (by simp [hw, WorkerStage.IsOver]) (by rw [hw]; rfl) rfl rfl (fun r hr => ?_) (fun _ => rfl)
    fun _ => rfl
  rcases List.mem_append.mp hr with hr | hr
  · exact hr
  · split at hr <;> simp at hr

/-- A worker whose device is gone reports a cancellation where it found the outcome settled. -/
theorem Alone.part {won : Bool} (h : v.Alone i o) (hw : o.worker = .left won) :
    (v.put ((o.reach (if won then .failed else .cancelled)).work .releasing)).Alone i
      ((o.reach (if won then .failed else .cancelled)).work .releasing) := by
  cases won with
  | false => exact h.says hw id rfl id fun _ => h.losing (.inl (by rw [hw]; trivial))
  | true => exact h.says hw id rfl id nofun

/-- A worker that hands the outcome over is over. -/
theorem Alone.post {r : Outcome} (h : v.Alone i o) (hw : o.worker = .posting r) :
    ((v.put (o.work .releasing)).post r).Alone i (o.work .releasing) := by
  have hn : ¬ o.worker.IsOver := by simp [hw, WorkerStage.IsOver]
  obtain ⟨hp, hd⟩ := h.busy hn
  have hu : v.Unclaimed i := h.ahead (.inl ⟨hn, by rw [hw]; rfl⟩)
  refine ⟨fun hn' => (hn' trivial).elim, .inr ⟨hd, r, by simp [View.post, put, hp]⟩, fun _ => hu, fun hl => ?_,
    h.cancelled⟩
  rcases hl with hl | ⟨r', hr'⟩
  · exact hl.elim
  · cases hd.symm.trans hr'

theorem Alone.workerDelivers {d : Delivery} (h : v.Alone i o) (hw : o.worker = .delivering d) :
    ((v.put ((delivered o d).work ((next o d).elim .releasing .delivering))).note (happened i o d)).Alone i
      ((delivered o d).work ((next o d).elim .releasing .delivering)) := by
  obtain ⟨hp, hd⟩ := h.busy (by simp [hw, WorkerStage.IsOver])
  refine h.deliver (.inl hw) rfl rfl rfl hp (fun _ => hd) ?_ fun d' hd' => ?_
  · cases hn : next o d with
    | none => exact .inl trivial
    | some d' => exact .inr ⟨d', rfl⟩
  · rcases hd' with hd' | hd'
    · cases hn : next o d with
      | none => simp [hn, Operation.work] at hd'
      | some d'' => simpa [hn, Operation.work] using hd'
    · cases hd.symm.trans hd'

theorem Alone.release (h : v.Alone i o) (hw : o.worker = .releasing) :
    ((v.put (o.work .done)).place false).Alone i (o.work .done) := by
  have hover : o.worker.IsOver := by rw [hw]; trivial
  refine ⟨fun hn => (hn trivial).elim, h.single, fun ha => h.ahead ?_, fun hl => h.losing ?_, h.cancelled⟩
  · exact .inr (ha.resolve_left fun hn => hn.1 trivial)
  · exact .inr (hl.resolve_left id)

/-! ### The delivering thread -/

/-- While the delivering thread has something of an operation, the worker is over. -/
theorem Alone.isOver (h : v.Alone i o) (hv : v.posted ≠ [] ∨ v.delivery ≠ none) : o.worker.IsOver :=
  Classical.byContradiction fun hn => hv.elim (absurd (h.busy hn).1) (absurd (h.busy hn).2)

/-- The delivering thread takes up the only outcome there is. -/
theorem Alone.fetch {r : Outcome} {rest : List Outcome} (h : v.Alone i o) (hp : v.posted = r :: rest) :
    Alone i { v with posted := rest, delivery := some (.claiming r) } o := by
  have hne : v.posted ≠ [] := hp ▸ List.cons_ne_nil r rest
  have hrest : rest = [] := by
    obtain ⟨-, r', hr'⟩ := h.single.resolve_left hne
    exact (List.cons.inj (hp.symm.trans hr')).2
  have hu : v.Unclaimed i := h.ahead (.inr (.inl hne))
  refine ⟨fun hn => (hn (h.isOver (.inl hne))).elim, .inl hrest, fun _ => hu, fun hl => ?_, h.cancelled⟩
  rcases hl with hl | ⟨r', hr'⟩
  · exact h.losing (.inl hl)
  · cases hr'

theorem Alone.threadDelivers {d : Delivery} (h : v.Alone i o) (hd : v.delivery = some d) :
    (((v.put (delivered o d)).note (happened i o d)).goOn (next o d)).Alone i (delivered o d) := by
  have hsome : v.delivery ≠ none := hd ▸ Option.some_ne_none d
  have hover : (delivered o d).worker.IsOver := (worker_delivered o d).symm ▸ h.isOver (.inr hsome)
  have hp : v.posted = [] := h.single.resolve_right fun hs => hsome hs.1
  refine h.deliver (.inr hd) rfl rfl rfl hp (fun hn => (hn hover).elim) (.inl hover) fun d' hd' => ?_
  rcases hd' with hd' | hd'
  · rw [hd'] at hover
    exact hover.elim
  · exact hd'

/-! ### Every move -/

/-- Without a watchdog, every move leaves the outcome with one thread. -/
theorem Alone.move (h : v.Alone i o) (ho : v.operation = some o) (hg : o.watchdog = .absent) (hm : Move e i v v') :
    ∃ o', v'.operation = some o' ∧ v'.Alone i o' := by
  have same : ∀ {o₁}, v.operation = some o₁ → o₁ = o := fun h => Option.some.inj (h.symm.trans ho)
  have idle : ∀ {o₁ : Operation} {stage : WatchdogStage}, v.operation = some o₁ → o₁.watchdog = stage →
      stage ≠ .absent → False := fun h hw hne => hne (hw.symm.trans (same h ▸ hg))
  cases hm with
  | create c hn =>
    rw [hn] at ho
    cases ho
  | enter h₁ he hs _ =>
    obtain rfl := same h₁
    exact ⟨_, rfl, h.enter he hs⟩
  | supersede hc => exact ⟨o.finish, by simp [ho], h.finish rfl rfl rfl⟩
  | cancel h₁ he =>
    obtain rfl := same h₁
    exact ⟨_, rfl, h.finish rfl rfl rfl⟩
  | start h₁ hw =>
    obtain rfl := same h₁
    exact ⟨_, rfl, h.says hw id rfl id nofun⟩
  | check h₁ hw =>
    obtain rfl := same h₁
    refine ⟨_, rfl, h.goOn hw id rfl fun hl => ?_⟩
    split at hl
    · assumption
    · exact hl.elim
  | giveUp h₁ hw =>
    obtain rfl := same h₁
    exact ⟨_, rfl, h.says hw id rfl id fun _ => h.losing (.inl (by rw [hw]; trivial))⟩
  | hold h₁ hw | attempt r h₁ hw | wake h₁ hw | workerBegins _ h₁ hw =>
    obtain rfl := same h₁
    exact ⟨_, rfl, h.goOn hw id rfl False.elim⟩
  | giveBack h₁ hw =>
    obtain rfl := same h₁
    refine ⟨_, rfl, h.goOn hw id rfl fun hl => ?_⟩
    revert hl
    unfold System.afterAttempt
    repeat' split
    all_goals exact False.elim
  | leave h₁ hw =>
    obtain rfl := same h₁
    exact ⟨_, rfl, h.leave hw⟩
  | part h₁ hw =>
    obtain rfl := same h₁
    exact ⟨_, rfl, h.part hw⟩
  | workerPosts _ h₁ hw =>
    obtain rfl := same h₁
    exact ⟨_, rfl, h.post hw⟩
  | workerDelivers h₁ hw =>
    obtain rfl := same h₁
    exact ⟨_, rfl, h.workerDelivers hw⟩
  | workerReleases h₁ hw =>
    obtain rfl := same h₁
    exact ⟨_, rfl, h.release hw⟩
  | expire h₁ hw | look h₁ hw | watchdogReleases h₁ hw | watchdogDelivers h₁ hw => exact (idle h₁ hw nofun).elim
  | watchdogBegins _ h₁ hw | watchdogPosts _ h₁ hw => exact (idle h₁ hw nofun).elim
  | fetch hp hd => exact ⟨o, ho, h.fetch hp⟩
  | threadDelivers h₁ hd =>
    obtain rfl := same h₁
    exact ⟨_, rfl, h.threadDelivers hd⟩

end View

namespace System

variable {σ : Type} {setup : Setup σ} {i : Nat} {o : Operation} {s s' : System σ} {connection : Fido.Session σ}
  {steps : List Step}

/-! ## What is reported -/

/-- Whether the status of an operation is true, now and for the rest of every run. -/
structure Told (setup : Setup σ) (i : Nat) (o : Operation) (s : System σ) : Prop where
  completed : o.status = .completed → ∃ a, .claimed i (.ok a) ∈ s.history
  failed : o.status = .failed → (∃ x, .claimed i (.error x) ∈ s.history) ∨ .abandoned i ∈ s.history
  cancelled : o.status = .cancelled → ∀ after s', s.replay? setup after = some s' → s'.delivered i = []

/-- Whether every status is true in every run. -/
def Truthful (setup : Setup σ) : Prop :=
  ∀ (connection : Fido.Session σ) (steps : List Step) (s : System σ) (i : Nat) (o : Operation),
    (new connection).replay? setup steps = some s → s.operations[i]? = some o → Told setup i o s

/-- What is reported as completed was claimed with a response. -/
theorem told_completed (hr : (new connection).replay? setup steps = some s) (ho : s.operations[i]? = some o)
    (hs : o.status = .completed) : ∃ a, .claimed i (.ok a) ∈ s.history := by
  obtain ⟨a, ha⟩ := ((ledger_replay hr i).present o ho).completed hs
  exact ⟨a, (mem_view_history rfl).mp ha⟩

/-- What is reported as failed was claimed with an error, or because the device is gone. -/
theorem told_failed (hr : (new connection).replay? setup steps = some s) (ho : s.operations[i]? = some o)
    (hs : o.status = .failed) : (∃ x, .claimed i (.error x) ∈ s.history) ∨ .abandoned i ∈ s.history := by
  rcases ((ledger_replay hr i).present o ho).failed hs with ⟨x, hx⟩ | ha
  · exact .inl ⟨x, (mem_view_history rfl).mp hx⟩
  · exact .inr ((mem_view_history rfl).mp ha)

/-- Every outcome is carried by one thread. -/
def Alone (s : System σ) : Prop := ∀ (i : Nat) (o : Operation), s.operations[i]? = some o → (s.view i).Alone i o

/-- Without watchdogs a step leaves it so. -/
theorem Alone.step {step : Step} (h : s.Alone) (hl : ∀ i, (s.view i).Ledger i) (hg : s.Unwatched)
    (hs : s.step? setup step = some s') : s'.Alone := by
  intro i o' ho'
  cases ho : s.operations[i]? with
  | none =>
    obtain ⟨c, rfl, hv⟩ := created_of_step (hl i) ho hs ho'
    exact hv ▸ .new c
  | some o =>
    rcases view_step (i := i) hs with hv | hm
    · have hoo : o = o' := Option.some.inj (ho.symm.trans ((congrArg View.operation hv).symm.trans ho'))
      exact hv ▸ hoo ▸ h i o ho
    · obtain ⟨o₁, ho₁, ha⟩ := (h i o ho).move ho (hg i o ho) hm
      exact Option.some.inj (ho₁.symm.trans ho') ▸ ha

/-- Without a deadline every run leaves it so. -/
theorem alone_replay (hd : setup.deadline = none) (hr : (new connection).replay? setup steps = some s) : s.Alone := by
  have hkept : ((∀ i, (s.view i).Ledger i) ∧ s.Unwatched) ∧ s.Alone :=
    replay_of_step (P := fun s => ((∀ i, (s.view i).Ledger i) ∧ s.Unwatched) ∧ s.Alone)
      (fun _ _ _ ⟨⟨hl, hg⟩, ha⟩ hs => ⟨⟨fun i => ledger_step (hl i) hs, hg.step hl hd hs⟩, ha.step hl hg hs⟩) hr
      ⟨unwatched_new connection, fun i o ho => by simp [new] at ho⟩
  exact hkept.2

/-- So without a deadline what is reported as cancelled was settled without a claim and is never delivered. -/
theorem told_of_unwatched (hd : setup.deadline = none) (hr : (new connection).replay? setup steps = some s)
    (ho : s.operations[i]? = some o) : Told setup i o s where
  completed := told_completed hr ho
  failed := told_failed hr ho
  cancelled hs after s' hr' := by
    obtain ⟨hf, hu⟩ := (alone_replay hd hr i o ho).cancelled hs
    exact delivered_of_silenced ⟨ledger_replay hr i, ⟨o, ho, hf⟩, hu⟩ hr'

/-! ## A watchdog that is overtaken -/

/-- A run in which the watchdog claims the timeout before the worker looks, and the worker then reports a
cancellation. -/
def overtaken (e : Executor) : List Step :=
  [.create .info, .enter 0 true true, .watchdog 0, .watchdog 0, .watchdog 0, .watchdog 0] ++
    (match e with
    | .inline => [.watchdog 0]
    | .queue => [.executor, .executor]) ++
    [.worker 0, .worker 0, .worker 0]

/-- Then the timeout is delivered nevertheless. -/
def deliveredLate : Executor → List Step
  | .inline => [.watchdog 0, .watchdog 0]
  | .queue => [.executor, .executor]

/-- With a deadline, an operation that is reported as cancelled may be called back. -/
theorem not_truthful_of_deadline {n : Nat} (hd : setup.deadline = some n) (card : σ) : ¬ Truthful setup := by
  intro h
  obtain ⟨device, config, executor, deadline⟩ := setup
  obtain rfl : deadline = some n := hd
  cases executor with
  | inline =>
    have hnone := (h (.new card) (overtaken .inline) _ 0 _ rfl rfl).cancelled rfl (deliveredLate .inline) _ rfl
    cases hnone
  | queue =>
    have hnone := (h (.new card) (overtaken .queue) _ 0 _ rfl rfl).cancelled rfl (deliveredLate .queue) _ rfl
    cases hnone

/-- Statuses are true in every run exactly when operations have no deadline. -/
theorem truthful_iff (setup : Setup σ) (card : σ) : Truthful setup ↔ setup.deadline = none := by
  constructor
  · intro h
    cases hd : setup.deadline with
    | none => rfl
    | some n => exact absurd h (not_truthful_of_deadline hd card)
  · intro hd connection steps s i o hr ho
    exact told_of_unwatched hd hr ho

/-- An unreachable device and a deadline suffice for a status that is not true. -/
theorem not_truthful_unreachable : ¬ Truthful { unreachable with deadline := some 0 } :=
  not_truthful_of_deadline rfl ()

end System

end SecurityKey.Background
