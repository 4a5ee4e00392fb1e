import SecurityKey.Proofs.Background.View

/-!
# What a supersession can still stop

Outcomes are delivered by a thread of its own (`Executor.queue`). A call that supersedes takes the current operation
out of the register and settles its outcome. Two kinds of earlier operations escape it: one whose outcome the
delivering thread has claimed already, and one that left the register with an outcome that nobody settled.

- `View.Sound` holds of every view in every run (`sound_replay`): an operation that is neither current nor settled
  has an outcome posted, or a watchdog about to post one;
- an operation that does not escape is stopped (`stopped_supersede`) and stays so (`View.stopped_move`);
- one that escapes is called back when the other threads go on (`exists_delivered_of_outside`);
- so a supersession keeps a callback from being started exactly when the operation does not escape
  (`delivered_after_supersession_iff`).
-/

namespace SecurityKey.Background

/-! ## Records -/

/-- Stages that the worker of an operation can be in while a thread of its own delivers outcomes. -/
def WorkerStage.Fits (finished : Bool) : WorkerStage → Prop
  | delivering _ => False
  | givingUp => finished = true
  | left _ => finished = true
  | _ => True

/-- Whether the worker is done with the outcome. -/
def WorkerStage.IsOver : WorkerStage → Prop
  | releasing => True
  | done => True
  | _ => False

/-- Stages that the watchdog of an operation can be in while a thread of its own delivers outcomes. -/
def WatchdogStage.Fits : WatchdogStage → Prop
  | delivering _ => False
  | _ => True

namespace Operation

@[simp]
theorem finished_reach (st : Status) (o : Operation) : (o.reach st).finished = o.finished := by
  unfold reach
  split <;> rfl

@[simp]
theorem callback_reach (st : Status) (o : Operation) : (o.reach st).callback = o.callback := by
  unfold reach
  split <;> rfl

@[simp]
theorem worker_reach (st : Status) (o : Operation) : (o.reach st).worker = o.worker := by
  unfold reach
  split <;> rfl

@[simp]
theorem watchdog_reach (st : Status) (o : Operation) : (o.reach st).watchdog = o.watchdog := by
  unfold reach
  split <;> rfl

end Operation

/-! ## Views -/

namespace View

/-- An outcome of the operation waits for the delivering thread. -/
def HandedOver (v : View) : Prop := v.posted ≠ [] ∨ ∃ r, v.delivery = some (.claiming r)

/-- The delivering thread has claimed an outcome of the operation and has not started the callback. -/
def IsCalling (v : View) : Prop := ∃ r, v.delivery = some (.reporting r true) ∨ v.delivery = some (.calling r)

/-- What is known of an operation with the given record. -/
structure Accounted (v : View) (o : Operation) : Prop where
  /-- The callback is there as long as the outcome is not settled. -/
  callback : o.finished = false → o.callback = true
  /-- The worker does not deliver, and gives up only what is settled. -/
  worker : o.worker.Fits o.finished
  watchdog : o.watchdog.Fits
  /-- Beyond its claim a delivery is about a settled outcome. -/
  claimed : ∀ d, v.delivery = some d → (∃ r, d = .claiming r) ∨ o.finished = true
  /-- Whoever claimed the outcome finds the callback. -/
  calling : v.IsCalling → o.callback = true
  /-- A worker that is done leaves no outcome behind that is neither settled nor handed over. -/
  left : o.worker.IsOver → o.finished = false → v.HandedOver
  /-- Outside the register, an outcome that is not settled was handed over or is about to be. -/
  outside : System.isEntering o = false → o.finished = false → v.isCurrent = false →
    v.HandedOver ∨ o.watchdog = .posting

/-- What is known of every operation, created or not. -/
structure Sound (v : View) : Prop where
  /-- Nothing concerns an operation that does not exist. -/
  absent : v.operation = none → v.isCurrent = false ∧ v.posted = [] ∧ v.delivery = none
  /-- A created operation is accounted for. -/
  present : ∀ o, v.operation = some o → v.Accounted o

theorem sound_empty : Sound .empty where
  absent _ := ⟨rfl, rfl, rfl⟩
  present _ h := by cases h

/-- A view with a record is sound when the record is accounted for. -/
theorem Accounted.sound {v : View} {o : Operation} (h : v.Accounted o) (ho : v.operation = some o) : v.Sound where
  absent hn := by rw [ho] at hn; cases hn
  present o' ho' := by
    rw [ho] at ho'
    obtain rfl := Option.some.inj ho'
    exact h

namespace Accounted

variable {v v' : View} {o : Operation}

/-- Only the parts of a view that tell of deliveries and of the register count. -/
theorem congr (h : v.Accounted o) (hc : v'.isCurrent = v.isCurrent) (hp : v'.posted = v.posted)
    (hd : v'.delivery = v.delivery) : v'.Accounted o := by
  obtain ⟨_, _, _, _, _⟩ := v
  obtain ⟨_, _, _, _, _⟩ := v'
  simp only at hc hp hd
  subst hc hp hd
  exact ⟨h.callback, h.worker, h.watchdog, h.claimed, h.calling, h.left, h.outside⟩

/-- Another record in the view changes nothing about a given one. -/
theorem put (h : v.Accounted o) (o' : Operation) : (v.put o').Accounted o := h.congr rfl rfl rfl

/-- What happened to outcomes does not count. -/
theorem note (h : v.Accounted o) (l : List Happening) : (v.note l).Accounted o := h.congr rfl rfl rfl

/-- The status does not count. -/
theorem reach (h : v.Accounted o) (st : Status) : v.Accounted (o.reach st) where
  callback := by simpa using h.callback
  worker := by simpa using h.worker
  watchdog := by simpa using h.watchdog
  claimed := by simpa using h.claimed
  calling := by simpa using h.calling
  left := by simpa using h.left
  outside := by simpa [System.isEntering] using h.outside

/-- A settled outcome stays accounted for, wherever the operation is. -/
theorem finish (h : v.Accounted o) (hd : v'.delivery = v.delivery) : v'.Accounted o.finish where
  callback hf := by cases hf
  worker := by
    have hw := h.worker
    revert hw
    show o.worker.Fits o.finished → o.worker.Fits true
    cases o.worker <;> simp [WorkerStage.Fits]
  watchdog := h.watchdog
  claimed _ _ := .inr rfl
  calling hc := by
    apply h.calling
    rwa [IsCalling, ← hd]
  left _ hf := by cases hf
  outside _ hf := by cases hf

/-- The worker of an operation that is under way goes on. -/
theorem work {stage : WorkerStage} (h : v.Accounted o) (he : System.isEntering o = false) (hs : stage.Fits o.finished)
    (ho : stage.IsOver → o.finished = false → v.HandedOver) : v.Accounted (o.work stage) :=
  ⟨h.callback, hs, h.watchdog, h.claimed, h.calling, ho, fun _ => h.outside he⟩

/-- The watchdog of an operation goes on. -/
theorem watch {stage : WatchdogStage} (h : v.Accounted o) (hs : stage.Fits)
    (ho : o.watchdog = .posting → stage ≠ .posting → v.HandedOver) : v.Accounted (o.watch stage) where
  callback := h.callback
  worker := h.worker
  watchdog := hs
  claimed := h.claimed
  calling := h.calling
  left := h.left
  outside he hf hc := by
    rcases h.outside he hf hc with hh | hw
    · exact .inl hh
    · by_cases hp : stage = .posting
      · exact .inr hp
      · exact .inl (ho hw hp)

/-- An operation that is settled, handed over or about to be may leave the register. -/
theorem leave (h : v.Accounted o) (ho : o.finished = false → v.HandedOver ∨ o.watchdog = .posting) :
    (v.place false).Accounted o :=
  ⟨h.callback, h.worker, h.watchdog, h.claimed, h.calling, h.left, fun _ hf _ => ho hf⟩

/-- Once an outcome is posted, it is handed over. -/
theorem post (h : v.Accounted o) (r : Outcome) : (v.post r).Accounted o :=
  have hh : (v.post r).HandedOver := .inl (by simp [View.post])
  ⟨h.callback, h.worker, h.watchdog, h.claimed, h.calling, fun _ _ => hh, fun _ _ _ => .inl hh⟩

end Accounted

/-- A stage tells that the operation is under way. -/
theorem entered_of_worker {o : Operation} {stage : WorkerStage} (hw : o.worker = stage) (hs : stage ≠ .absent) :
    System.isEntering o = false := by
  unfold System.isEntering
  rw [hw]
  cases stage <;> simp_all

/-- An operation that enters the register is accounted for. -/
theorem Accounted.enter {v : View} {o : Operation} {stage : WorkerStage} {guard : WatchdogStage} (h : v.Accounted o)
    (hs : stage = .starting ∨ ∃ r, stage = .posting r) (hg : guard = .waiting ∨ guard = .absent) :
    (v.place true).Accounted ((o.work stage).watch guard) where
  callback := h.callback
  worker := by
    rcases hs with rfl | ⟨r, rfl⟩
    · trivial
    · trivial
  watchdog := by
    rcases hg with rfl | rfl
    · trivial
    · trivial
  claimed := h.claimed
  calling := h.calling
  left hw := by rcases hs with rfl | ⟨r, rfl⟩ <;> exact hw.elim
  outside _ _ hc := by cases hc

/-- The next outcome that was posted is as good as posted. -/
theorem Accounted.fetch {v : View} {o : Operation} (r : Outcome) (rest : List Outcome) (h : v.Accounted o)  :
    ({ v with posted := rest, delivery := some (.claiming r) } : View).Accounted o where
  callback := h.callback
  worker := h.worker
  watchdog := h.watchdog
  claimed d hd := .inl ⟨r, (Option.some.inj hd).symm⟩
  calling hc := by
    obtain ⟨r', hr | hr⟩ := hc
    · cases hr
    · cases hr
  left _ _ := .inr ⟨r, rfl⟩
  outside _ _ _ := .inl (.inr ⟨r, rfl⟩)

/-- The delivering thread settles what it is at before it goes on. -/
theorem Accounted.deliver {v : View} {o : Operation} {d : Delivery} (h : v.Accounted o) (hd : v.delivery = some d) :
    (v.goOn (next o d)).Accounted (delivered o d) := by
  have hf : ∀ {w : View} {o' : Operation}, o'.finished = true → o.worker.Fits true → o'.worker = o.worker →
      o'.watchdog = o.watchdog → (w.IsCalling → o'.callback = true) → w.Accounted o' :=
    fun hf hw hw' hg hc => ⟨by simp [hf], by rwa [hw', hf], by rw [hg]; exact h.watchdog, fun _ _ => .inr hf, hc,
      by simp [hf], by simp [hf]⟩
  have hs : v.Accounted o.finish := h.finish rfl
  have hfit : o.finish.worker.Fits true := hs.worker
  match d with
  | .claiming r =>
    refine hf rfl hfit rfl rfl fun hc => ?_
    obtain ⟨r', hr | hr⟩ := hc
    · obtain ⟨rfl, hf⟩ : r = r' ∧ o.finished = false := by simpa [goOn, next] using hr
      exact h.callback hf
    · cases hr
  | .reporting r won =>
    have ho : o.finished = true := by
      rcases h.claimed _ hd with ⟨r', hr⟩ | ho
      · cases hr
      · exact ho
    cases won
    · refine hf (by simpa [delivered]) hfit (by simp [delivered]) (by simp [delivered]) fun hc => ?_
      obtain ⟨r', hr | hr⟩ := hc <;> cases hr
    · exact hf (by simpa [delivered]) hfit (by simp [delivered]) (by simp [delivered])
        fun _ => by simpa [delivered] using h.calling ⟨r, .inl hd⟩
  | .calling r =>
    have ho : o.finished = true := by
      rcases h.claimed _ hd with ⟨r', hr⟩ | ho
      · cases hr
      · exact ho
    refine hf ho hfit rfl rfl fun hc => ?_
    obtain ⟨r', hr | hr⟩ := hc <;> cases hr

/-- The worker goes on to a stage at which it is not done with the outcome. -/
theorem Accounted.goOn {v : View} {o : Operation} {stage next : WorkerStage} (h : v.Accounted o)
    (hw : o.worker = stage) (hs : stage ≠ .absent) (hf : next.Fits o.finished) (hn : ¬ next.IsOver) :
    v.Accounted (o.work next) :=
  h.work (entered_of_worker hw hs) hf fun hi => (hn hi).elim

/-- Every move keeps a view sound, as long as a thread of its own delivers. -/
theorem sound_move {i : Nat} {v v' : View} (h : v.Sound) (hm : Move .queue i v v') : v'.Sound := by
  have hp := h.present
  have sound : ∀ {v : View} {o : Operation}, v.Accounted o → (v.put o).Sound := fun h => (h.put _).sound rfl
  cases hm with
  | create c ho =>
    obtain ⟨hc, hpo, hd⟩ := h.absent ho
    refine sound ⟨fun _ => rfl, trivial, trivial, fun d hd' => ?_, fun _ => rfl, fun hw => hw.elim,
      fun he => by cases he⟩
    rw [hd] at hd'
    cases hd'
  | @enter o stage guard ho he hs hg =>
    have ha : v.Accounted (if v.isCurrent then o.finish else o) := by
      split
      · exact (hp o ho).finish rfl
      · exact hp o ho
    exact sound (ha.enter hs hg)
  | supersede hc =>
    cases ho : v.operation with
    | none => exact ⟨fun _ => ⟨rfl, (h.absent ho).2⟩, fun _ h => by simp at h⟩
    | some o => exact sound (v := v.place false) ((hp o ho).finish rfl)
  | cancel ho he => exact sound ((hp _ ho).finish rfl)
  | start ho hw => exact sound (((hp _ ho).reach .running).goOn (by simpa) (by simp) trivial not_false)
  | check ho hw =>
    refine sound ((hp _ ho).goOn hw (by simp) ?_ ?_)
    all_goals
      split
    · assumption
    · trivial
    · exact not_false
    · exact not_false
  | @giveUp o ho hw =>
    have hf : o.finished = true := by simpa [hw, WorkerStage.Fits] using (hp o ho).worker
    exact sound (((hp o ho).reach .cancelled).work (entered_of_worker (by simpa) (by simp)) trivial (by simp [hf]))
  | hold ho hw => exact sound ((hp _ ho).goOn hw (by simp) trivial not_false)
  | attempt r ho hw => exact sound ((hp _ ho).goOn hw (by simp) trivial not_false)
  | @giveBack o r ho hw =>
    refine sound ((hp _ ho).goOn hw (by simp) ?_ ?_)
    all_goals
      unfold System.afterAttempt
      repeat' split
    all_goals first | trivial | exact not_false
  | wake ho hw => exact sound ((hp _ ho).goOn hw (by simp) trivial not_false)
  | @leave o ho hw =>
    have ha : v.Accounted o.finish := (hp o ho).finish rfl
    have hl : v.Accounted (o.finish.work (.left !o.finished)) :=
      ha.work (entered_of_worker hw (by simp)) rfl fun hi => hi.elim
    exact Accounted.sound (o := o.finish.work (.left !o.finished)) ((hl.put _).note _) rfl
  | @part o won ho hw =>
    have hf : o.finished = true := by simpa [hw, WorkerStage.Fits] using (hp o ho).worker
    have ha := (hp o ho).reach (if won then .failed else .cancelled)
    exact sound (ha.work (entered_of_worker (by simpa) (by simp)) trivial (by simp [hf]))
  | workerBegins he ho hw => cases he
  | @workerPosts o r he ho hw =>
    have ha : (v.post r).Accounted (o.work .releasing) :=
      ((hp o ho).post r).work (entered_of_worker hw (by simp)) trivial fun _ _ => .inl (by simp [post])
    exact sound (v := v.post r) ha
  | @workerDelivers o d ho hw =>
    have hf := (hp o ho).worker
    rw [hw] at hf
    exact hf.elim
  | @workerReleases o ho hw =>
    have ha : v.Accounted (o.work .done) :=
      (hp o ho).work (entered_of_worker hw (by simp)) trivial fun _ hf => (hp o ho).left (by rw [hw]; trivial) hf
    exact sound (v := v.place false) (ha.leave fun hf => .inl (ha.left trivial hf))
  | expire ho hw =>
    refine sound ((hp _ ho).watch ?_ (by simp [hw]))
    split <;> trivial
  | look ho hw =>
    refine sound ((hp _ ho).watch ?_ (by simp [hw]))
    split <;> trivial
  | @watchdogReleases o ho hw =>
    have ha : v.Accounted (o.watch .posting) := (hp o ho).watch trivial (by simp)
    exact sound (v := v.place false) (ha.leave fun _ => .inr rfl)
  | watchdogBegins he ho hw => cases he
  | @watchdogPosts o he ho hw =>
    have ha : (v.post (.error .timeout)).Accounted (o.watch .done) :=
      ((hp o ho).post (.error .timeout)).watch trivial fun _ _ => .inl (by simp [post])
    exact sound (v := v.post (.error .timeout)) ha
  | @watchdogDelivers o d ho hw =>
    have hf := (hp o ho).watchdog
    rw [hw] at hf
    exact hf.elim
  | @fetch r rest hpo hd =>
    refine ⟨fun ho => ?_, fun o ho => (hp o ho).fetch r rest⟩
    have hn := (h.absent ho).2.1
    rw [hpo] at hn
    cases hn
  | @threadDelivers o d ho hd =>
    have ha := (hp o ho).deliver hd
    exact Accounted.sound (o := delivered o d) (ha.congr rfl rfl rfl) rfl

/-! ## Operations that a supersession stops -/

/-- The outcomes that the callback of the operation was started with, in order. -/
def called (v : View) : List Outcome :=
  v.history.filterMap fun
    | .called _ r => some r
    | _ => none

@[simp]
theorem called_put (o : Operation) (v : View) : (v.put o).called = v.called := rfl

/-- Only the start of the callback counts as a call. -/
theorem called_note (h : List Happening) (v : View) : (v.note h).called = v.called ++ (empty.note h).called := by
  simp [called, note, empty]

/-- Without the callback, or before it is started, a delivery calls nothing. -/
theorem called_happened {i : Nat} {o : Operation} {d : Delivery} (v : View) (h : ∀ r, d ≠ .calling r) :
    (v.note (happened i o d)).called = v.called := by
  rw [called_note]
  match d with
  | .claiming r =>
    cases hf : o.finished <;> simp [called, note, empty, happened, hf]
  | .reporting r won => simp [called, note, empty, happened]
  | .calling r => exact absurd rfl (h r)

/-- An operation that a supersession stopped: its outcome is settled, its callback is not about to be started, and
it was called with the given outcomes. -/
structure Stopped (l : List Outcome) (v : View) : Prop where
  sound : v.Sound
  settled : ∃ o, v.operation = some o ∧ o.finished = true
  silent : ¬ v.IsCalling
  called : v.called = l

/-- Every move leaves a stopped operation stopped. -/
theorem stopped_move {l : List Outcome} {i : Nat} {v v' : View} (h : v.Stopped l) (hm : Move .queue i v v') :
    v'.Stopped l := by
  obtain ⟨hs, ⟨o₀, ho₀, hf⟩, hc, rfl⟩ := h
  have hs' := sound_move hs hm
  have same : ∀ {o}, v.operation = some o → o.finished = true := fun ho => by
    rw [ho₀] at ho
    exact Option.some.inj ho ▸ hf
  have keep : ∀ {o o' : Operation}, v.operation = some o → o'.finished = o.finished →
      ∃ o'', some o' = some o'' ∧ o''.finished = true := fun ho h => ⟨_, rfl, h.trans (same ho)⟩
  cases hm with
  | create c ho => rw [ho₀] at ho; cases ho
  | @enter o stage guard ho he hst hg =>
    refine ⟨hs', ⟨_, rfl, ?_⟩, hc, rfl⟩
    show (if v.isCurrent then o.finish else o).finished = true
    split
    · rfl
    · exact same ho
  | supersede hcur => exact ⟨hs', ⟨o₀.finish, by simp [ho₀], rfl⟩, hc, rfl⟩
  | cancel ho he => exact ⟨hs', ⟨_, rfl, rfl⟩, hc, rfl⟩
  | start ho hw => exact ⟨hs', keep ho (Operation.finished_reach ..), hc, rfl⟩
  | check ho hw => exact ⟨hs', keep ho rfl, hc, rfl⟩
  | giveUp ho hw => exact ⟨hs', keep ho (Operation.finished_reach ..), hc, rfl⟩
  | hold ho hw => exact ⟨hs', keep ho rfl, hc, rfl⟩
  | attempt r ho hw => exact ⟨hs', keep ho rfl, hc, rfl⟩
  | giveBack ho hw => exact ⟨hs', keep ho rfl, hc, rfl⟩
  | wake ho hw => exact ⟨hs', keep ho rfl, hc, rfl⟩
  | leave ho hw => exact ⟨hs', ⟨_, rfl, rfl⟩, hc, by simp [same ho, note, put, called]⟩
  | part ho hw => exact ⟨hs', keep ho (Operation.finished_reach ..), hc, rfl⟩
  | workerBegins he ho hw => cases he
  | workerPosts he ho hw => exact ⟨hs', keep ho rfl, hc, rfl⟩
  | workerDelivers ho hw =>
    have hfit := (hs.present _ ho).worker
    rw [hw] at hfit
    exact hfit.elim
  | workerReleases ho hw => exact ⟨hs', keep ho rfl, hc, rfl⟩
  | expire ho hw => exact ⟨hs', keep ho rfl, hc, rfl⟩
  | look ho hw => exact ⟨hs', keep ho rfl, hc, rfl⟩
  | watchdogReleases ho hw => exact ⟨hs', keep ho rfl, hc, rfl⟩
  | watchdogBegins he ho hw => cases he
  | watchdogPosts he ho hw => exact ⟨hs', keep ho rfl, hc, rfl⟩
  | watchdogDelivers ho hw =>
    have hfit := (hs.present _ ho).watchdog
    rw [hw] at hfit
    exact hfit.elim
  | fetch hpo hd =>
    refine ⟨hs', ⟨o₀, ho₀, hf⟩, ?_, rfl⟩
    rintro ⟨r, hr | hr⟩ <;> cases hr
  | @threadDelivers o d ho hd =>
    have hn : ∀ r, d ≠ .calling r := fun r hr => hc ⟨r, .inr (hr ▸ hd)⟩
    refine ⟨hs', ⟨_, rfl, ?_⟩, ?_, called_happened _ hn⟩
    · rcases d with _ | ⟨_, _ | _⟩ | r
      · rfl
      · exact (Operation.finished_reach ..).trans (same ho)
      · exact (Operation.finished_reach ..).trans (same ho)
      · exact absurd rfl (hn r)
    · rintro ⟨r', hr⟩
      rcases d with _ | ⟨r, _ | _⟩ | r
      · simp [goOn, next, same ho] at hr
      · simp [goOn, next] at hr
      · exact hc ⟨r, .inl hd⟩
      · exact hn r rfl

/-! ## Operations that escape a supersession -/

/-- An operation that a supersession cannot stop: its callback is about to be started, or its outcome is neither
settled nor to be settled by taking it out of the register. -/
def Escapes (v : View) : Prop := v.IsCalling ∨ ∃ o, v.operation = some o ∧ o.finished = false ∧ v.isCurrent = false

/-- An operation that the delivering thread will call back: it has claimed the outcome, or nobody has and it was
handed over. -/
def Pending (v : View) : Prop := v.IsCalling ∨ ∃ o, v.operation = some o ∧ o.finished = false ∧ v.HandedOver

/-- The delivering thread goes on with the outcome of a pending operation: it starts the callback, or the operation
stays pending. -/
theorem Pending.deliver {i : Nat} {v v' : View} {o : Operation} {d : Delivery} (h : v.Pending) (hs : v.Sound)
    (ho : v.operation = some o) (hd : v.delivery = some d)
    (hv : v' = ((v.put (delivered o d)).note (happened i o d)).goOn (next o d)) :
    v'.called ≠ v.called ∨ v'.Pending ∧ v'.called = v.called := by
  have ha := hs.present o ho
  subst hv
  cases d with
  | claiming r =>
    have hf : o.finished = false := by
      rcases h with ⟨r', hr | hr⟩ | ⟨o', ho', hf, -⟩
      · rw [hd] at hr; cases hr
      · rw [hd] at hr; cases hr
      · rw [ho] at ho'
        exact Option.some.inj ho' ▸ hf
    refine .inr ⟨.inl ⟨r, .inl ?_⟩, called_happened _ (by simp)⟩
    simp [goOn, next, hf]
  | reporting r won =>
    have hf : o.finished = true := by
      rcases ha.claimed _ hd with ⟨r', hr⟩ | hf
      · cases hr
      · exact hf
    have hw : won = true := by
      rcases h with ⟨r', hr | hr⟩ | ⟨o', ho', hf', -⟩
      · rw [hd] at hr; cases hr; rfl
      · rw [hd] at hr; cases hr
      · rw [ho] at ho'
        rw [← Option.some.inj ho', hf] at hf'
        cases hf'
    subst hw
    exact .inr ⟨.inl ⟨r, .inr rfl⟩, called_happened _ (by simp)⟩
  | calling r =>
    left
    have hc : o.callback = true := ha.calling ⟨r, .inr hd⟩
    simp [called, goOn, note, put, happened, hc]

/-- The delivering thread takes up an outcome of a pending operation. -/
theorem Pending.fetch {v : View} {r : Outcome} {rest : List Outcome} (h : v.Pending) (hd : v.delivery = none) :
    ({ v with posted := rest, delivery := some (.claiming r) } : View).Pending := by
  rcases h with ⟨r', hr | hr⟩ | ⟨o, ho, hf, -⟩
  · rw [hd] at hr; cases hr
  · rw [hd] at hr; cases hr
  · exact .inr ⟨o, ho, hf, .inr ⟨r, rfl⟩⟩

end View

namespace System

variable {σ : Type} {setup : Setup σ} {i : Nat} {s s' : System σ}

/-- What an operation was called back with is in its view. -/
theorem delivered_eq (i : Nat) (s : System σ) : s.delivered i = (s.view i).called := by
  unfold delivered View.called view
  rw [List.filterMap_filter]
  congr 1
  funext h
  cases h with
  | claimed k r => simp
  | abandoned k => simp
  | called k r => by_cases hk : k = i <;> simp [Happening.operation, hk]

/-- Every view in every run is sound, as long as a thread of its own delivers. -/
theorem sound_replay (hq : setup.executor = .queue) {steps : List Step} (hr : s.replay? setup steps = some s')
    (h : (s.view i).Sound) : (s'.view i).Sound :=
  view_replay (P := View.Sound) (fun _ _ hs hm => View.sound_move hs (hq ▸ hm)) hr h

/-- A step after which a run goes on. -/
theorem replay?_cons {step : Step} {rest : List Step} {t : System σ} (hs : s.step? setup step = some t)
    (hr : t.replay? setup rest = some s') : s.replay? setup (step :: rest) = some s' := by
  rw [replay?, hs]
  exact hr

/-- How many steps the delivering thread has before it at most. -/
def backlog (s : System σ) : Nat :=
  4 * s.posted.length + match s.delivery with
    | none => 0
    | some (_, .calling _) => 1
    | some (_, .reporting ..) => 2
    | some (_, .claiming _) => 3

/-- A pending operation is called back when the delivering thread goes on. -/
theorem exists_delivered_of_pending (hq : setup.executor = .queue) (h : ∀ k, (s.view k).Sound)
    (hp : (s.view i).Pending) : ∃ after s', s.replay? setup after = some s' ∧ s'.delivered i ≠ s.delivered i := by
  induction hn : s.backlog using Nat.strongRecOn generalizing s with
  | _ n ih =>
    subst hn
    have again : ∀ t, s.executorStep? = some t → t.backlog < s.backlog → (t.view i).Pending →
        t.delivered i = s.delivered i →
        ∃ after s', s.replay? setup after = some s' ∧ s'.delivered i ≠ s.delivered i := by
      intro t ht hb hpt hdt
      have hst : s.step? setup .executor = some t := ht
      have hr : s.replay? setup [.executor] = some t := replay?_cons hst rfl
      obtain ⟨after, s', hs', hne⟩ := ih t.backlog hb (fun k => sound_replay hq hr (h k)) hpt rfl
      exact ⟨.executor :: after, s', replay?_cons hst hs', hdt ▸ hne⟩
    cases hd : s.delivery with
    | some p =>
      obtain ⟨k, d⟩ := p
      have hk : (s.view k).delivery = some d := by simp [view, hd]
      cases ho : s.operations[k]? with
      | none =>
        have := ((h k).absent ho).2.2
        rw [hk] at this
        cases this
      | some o =>
        obtain ⟨t, ht, hpo, hdt, hv, hother⟩ := executorStep_delivering hd ho
        have hb : t.backlog < s.backlog := by
          unfold backlog
          rw [hpo, hdt, hd]
          rcases d with _ | ⟨_, _ | _⟩ | _ <;> simp [View.next]
        by_cases hi : k = i
        · subst hi
          rcases hp.deliver (h k) ho hk hv with hne | ⟨hpt, hc⟩
          · refine ⟨[.executor], t, replay?_cons ht rfl, ?_⟩
            rwa [delivered_eq, delivered_eq]
          · exact again t ht hb hpt (by rw [delivered_eq, delivered_eq, hc])
        · have hvi := hother i hi
          exact again t ht hb (hvi ▸ hp) (by rw [delivered_eq, delivered_eq, hvi])
    | none =>
      cases hpo : s.posted with
      | nil =>
        rcases hp with ⟨r, hr | hr⟩ | ⟨o, ho, hf, hpost | ⟨r, hr⟩⟩
        · simp [view, hd] at hr
        · simp [view, hd] at hr
        · simp [view, hpo] at hpost
        · simp [view, hd] at hr
      | cons p rest =>
        obtain ⟨k, r⟩ := p
        obtain ⟨t, ht, hpt, hdt, ⟨l, hl, hv⟩, hother⟩ := executorStep_fetching hd hpo
        have hb : t.backlog < s.backlog := by
          unfold backlog
          rw [hpt, hdt, hd, hpo]
          simp only [List.length_cons]
          omega
        by_cases hi : k = i
        · subst hi
          have hn : (s.view k).delivery = none := by simp [view, hd]
          exact again t ht hb (hv ▸ hp.fetch hn) (by rw [delivered_eq, delivered_eq, hv]; rfl)
        · have hvi := hother i hi
          exact again t ht hb (hvi ▸ hp) (by rw [delivered_eq, delivered_eq, hvi])

/-- An operation outside the register whose outcome is not settled is called back when the other threads go on. -/
theorem exists_delivered_of_outside {o : Operation} (hq : setup.executor = .queue) (h : ∀ k, (s.view k).Sound)
    (ho : s.operations[i]? = some o) (he : isEntering o = false) (hf : o.finished = false)
    (hc : (s.view i).isCurrent = false) :
    ∃ after s', s.replay? setup after = some s' ∧ s'.delivered i ≠ s.delivered i := by
  rcases ((h i).present o ho).outside he hf hc with hh | hw
  · exact exists_delivered_of_pending hq h (.inr ⟨o, ho, hf, hh⟩)
  · -- The watchdog took it out of the register and posts the timeout next.
    obtain ⟨t, hs, hv⟩ : ∃ t, s.step? setup (.watchdog i) = some t ∧
        t.view i = ((s.view i).put (o.watch .done)).post (.error .timeout) :=
      ⟨_, by simp [step?, ho, watchdogStep?, hw]; rfl, view_post_queue hq ho _ _ _⟩
    have hr : s.replay? setup [.watchdog i] = some t := replay?_cons hs rfl
    have hp : (t.view i).Pending := by
      rw [hv]
      exact .inr ⟨_, rfl, hf, .inl (by simp [View.post])⟩
    obtain ⟨after, s', hs', hne⟩ := exists_delivered_of_pending hq (fun k => sound_replay hq hr (h k)) hp
    refine ⟨.watchdog i :: after, s', replay?_cons hs hs', ?_⟩
    have hd : t.delivered i = s.delivered i := by
      rw [delivered_eq, delivered_eq, hv]
      rfl
    rwa [hd] at hne

end System

/-! ## Supersession -/

/-- The calls that end what is current: the next submission, a cancellation and the last cancellation. -/
def Step.supersedes : Step → Bool
  | enter .. => true
  | cancel => true
  | close => true
  | _ => false

namespace System

variable {σ : Type} {setup : Setup σ} {i : Nat} {s s' : System σ}

/-- Of a call that ends what is current an earlier operation sees the supersession only. -/
theorem view_superseding {call : Step} {o : Operation} (hc : call.supersedes = true)
    (hs : s.step? setup call = some s') (ho : s.operations[i]? = some o) (he : isEntering o = false) :
    s'.view i = s.supersede.view i := by
  cases call with
  | enter k worker watchdog =>
    obtain ⟨o', ho', hs⟩ := Option.bind_eq_some_iff.mp hs
    split at hs
    · rename_i hk
      obtain rfl := Option.some.inj hs
      have hne : k ≠ i := by
        rintro rfl
        rw [ho] at ho'
        obtain rfl := Option.some.inj ho'
        simp [he] at hk
      exact view_enter_of_ne hne worker watchdog
    · cases hs
  | cancel =>
    simp only [step?] at hs
    split at hs
    · cases hs
    · exact Option.some.inj hs ▸ rfl
  | close =>
    simp only [step?] at hs
    split at hs
    · cases hs
    · exact Option.some.inj hs ▸ rfl
  | _ => cases hc

/-- An operation that does not escape is stopped by a supersession. -/
theorem stopped_supersede {o : Operation} (h : (s.view i).Sound) (ho : s.operations[i]? = some o)
    (he : ¬ (s.view i).Escapes) : (s.supersede.view i).Stopped (s.supersede.delivered i) := by
  have hop : (s.view i).operation = some o := ho
  have hsound : (s.supersede.view i).Sound := by
    rcases view_supersede_step (i := i) (s := s) .queue with hv | hm
    · rw [hv]
      exact h
    · exact View.sound_move h hm
  refine ⟨hsound, ?_, ?_, (delivered_eq i _).symm⟩
  · rw [view_supersede]
    cases hc : (s.view i).isCurrent
    · refine ⟨o, by simpa, ?_⟩
      cases hf : o.finished
      · exact absurd (.inr ⟨o, hop, hf, hc⟩) he
      · rfl
    · exact ⟨o.finish, by simp [hop], rfl⟩
  · intro hcall
    apply he
    left
    rw [view_supersede] at hcall
    split at hcall
    · exact hcall
    · exact hcall

/-- After a call that ends what is current, the callback of an operation submitted before is started once more in some
continuation of the run exactly when the operation escapes. -/
theorem delivered_after_supersession_iff {connection : Fido.Session σ} {before : List Step} {call : Step}
    {o : Operation} (hq : setup.executor = .queue) (hr : (new connection).replay? setup before = some s)
    (hc : call.supersedes = true) (hs : s.step? setup call = some s') (ho : s.operations[i]? = some o)
    (he : isEntering o = false) :
    (∃ after s'', s'.replay? setup after = some s'' ∧ s''.delivered i ≠ s'.delivered i) ↔ (s.view i).Escapes := by
  have hsound : ∀ k, (s.view k).Sound := fun k => sound_replay hq hr (view_new connection ▸ View.sound_empty)
  have hsound' : ∀ k, (s'.view k).Sound := fun k =>
    sound_replay hq (show s.replay? setup [call] = some s' from replay?_cons hs rfl) (hsound k)
  have hv : s'.view i = s.supersede.view i := view_superseding hc hs ho he
  constructor
  · rintro ⟨after, s'', hr', hne⟩
    refine Classical.byContradiction fun hesc => ?_
    have hstop := stopped_supersede (hsound i) ho hesc
    rw [← hv, delivered_eq, ← hv, ← delivered_eq] at hstop
    have hend := view_replay (P := View.Stopped (s'.delivered i))
      (fun _ _ h hm => View.stopped_move h (hq ▸ hm)) hr' hstop
    exact hne ((delivered_eq i s'').trans hend.called)
  · rintro (⟨r, hcall⟩ | ⟨o', ho', hf, hcur⟩)
    · refine exists_delivered_of_pending hq hsound' (.inl ⟨r, ?_⟩)
      rw [hv, view_supersede]
      split
      · exact hcall
      · exact hcall
    · have hsame : s'.view i = s.view i := by rw [hv, view_supersede, hcur]; rfl
      have ho'' : s'.operations[i]? = some o := (congrArg View.operation hsame).trans ho
      have hoo : o' = o := Option.some.inj (ho'.symm.trans ho)
      exact exists_delivered_of_outside hq hsound' ho'' he (hoo ▸ hf) (by rw [hsame, hcur])

/-- Whether a call that ends what is current keeps every callback of an earlier operation from being started after it,
in every run. -/
def SingleFlight (setup : Setup σ) : Prop :=
  ∀ (connection : Fido.Session σ) (before : List Step) (s : System σ) (call : Step) (s' : System σ) (i : Nat)
    (o : Operation) (after : List Step) (s'' : System σ),
    (new connection).replay? setup before = some s → call.supersedes = true → s.step? setup call = some s' →
      s.operations[i]? = some o → isEntering o = false → s'.replay? setup after = some s'' →
      s''.delivered i = s'.delivered i

/-- A device that is never reached, with a thread of its own to deliver outcomes. -/
def unreachable : Setup Unit where
  device :=
    { card :=
        { connect := throw (.ioError "unreachable")
          transceive := fun _ => throw .notConnected
          release := id
          isConnected := fun _ => false
          supportsExtended := fun _ => false }
      breakdown? := fun _ => none
      recover := id }
  config := .standard fun _ => ⟨1, Crypto.P256.generator⟩
  executor := .queue
  deadline := none

/-- A run in which the first worker posts its outcome and leaves the register before the second command is given its
number. -/
def postedBefore : List Step :=
  [.create .info, .enter 0 true false] ++ List.replicate 7 (.worker 0) ++ [.create .info]

/-- A callback may start after the next submission: its outcome was posted before. -/
theorem not_singleFlight_unreachable : ¬ SingleFlight unreachable := by
  intro h
  have hsame := h (.new ()) postedBefore _ (.enter 1 true false) _ 0 _ (List.replicate 4 .executor) _
    rfl rfl rfl rfl rfl rfl
  cases hsame

/-- The first operation of that run is one that a supersession cannot stop. -/
theorem delivered_after_supersession_iff_postedBefore : ∃ s s' o,
    (new (.new ())).replay? unreachable postedBefore = some s ∧ s.step? unreachable (.enter 1 true false) = some s' ∧
    s.operations[0]? = some o ∧ isEntering o = false ∧
    ((∃ after s'', s'.replay? unreachable after = some s'' ∧ s''.delivered 0 ≠ s'.delivered 0) ↔
      (s.view 0).Escapes) := by
  refine ⟨_, _, _, rfl, rfl, rfl, rfl, ?_⟩
  have hc : (Step.enter 1 true false).supersedes = true := rfl
  have hr : (new (.new ())).replay? unreachable postedBefore = some _ := rfl
  exact delivered_after_supersession_iff rfl hr hc rfl rfl rfl

end System

end SecurityKey.Background
