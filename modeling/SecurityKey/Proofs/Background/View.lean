import SecurityKey.Background.System

/-!
# What one operation sees of the system

Whatever the threads do, one operation is concerned by a part of it only: by its own record, its place in the
register, the outcomes of it that were posted or are being delivered, and what happened to them.

- `System.view i` is that part for the operation `i`, and `View.Move` lists all that can happen to it;
- a step of the system is a move of every view, or leaves it as it is (`view_step`);
- so what every move keeps, every run keeps (`view_replay`).
-/

namespace SecurityKey.Background

/-- The operation something happened to. -/
def Happening.operation : Happening → Nat
  | claimed i _ => i
  | abandoned i => i
  | called i _ => i

/-- What one operation sees. -/
structure View where
  /-- Its record, once it was created. -/
  operation : Option Operation
  /-- Whether it is the current one. -/
  isCurrent : Bool
  posted : List Outcome
  /-- What the delivering thread is at, if it is at an outcome of this operation. -/
  delivery : Option Delivery
  history : List Happening

/-- The part of the system that concerns one operation. -/
def System.view {σ : Type} (i : Nat) (s : System σ) : View where
  operation := s.operations[i]?
  isCurrent := s.current == some i
  posted := s.posted.filterMap fun p => if p.1 = i then some p.2 else none
  delivery := s.delivery.bind fun p => if p.1 = i then some p.2 else none
  history := s.history.filter (·.operation = i)

namespace View

/-- The view of an operation that does not exist. -/
def empty : View := ⟨none, false, [], none, []⟩

/-- The view with another record. -/
def put (o : Operation) (v : View) : View := { v with operation := some o }

/-- The view after something happened. -/
def note (h : List Happening) (v : View) : View := { v with history := v.history ++ h }

/-- The view with another place in the register. -/
def place (isCurrent : Bool) (v : View) : View := { v with isCurrent }

/-- The view with another stage of the delivering thread. -/
def goOn (d : Option Delivery) (v : View) : View := { v with delivery := d }

/-- The view with one more outcome posted. -/
def post (r : Outcome) (v : View) : View := { v with posted := v.posted ++ [r] }

/-- The record after one step of a delivery. -/
def delivered (o : Operation) : Delivery → Operation
  | .claiming _ => o.finish
  | .reporting _ false => o.reach .cancelled
  | .reporting r true => o.reach (System.deliveredStatus r)
  | .calling _ => { o with callback := false }

/-- What happens in one step of a delivery. -/
def happened (i : Nat) (o : Operation) : Delivery → List Happening
  | .claiming r => if o.finished then [] else [.claimed i r]
  | .reporting .. => []
  | .calling r => if o.callback then [.called i r] else []

/-- What comes next in a delivery. -/
def next (o : Operation) : Delivery → Option Delivery
  | .claiming r => some (.reporting r !o.finished)
  | .reporting _ false => none
  | .reporting r true => some (.calling r)
  | .calling _ => none

/-- What can happen to the view of operation `i`. -/
inductive Move (e : Executor) (i : Nat) : View → View → Prop
  | create {v : View} (c : Fido.Command) (ho : v.operation = none) : Move e i v (v.put (.new c))
  | enter {v : View} {o : Operation} {stage : WorkerStage} {guard : WatchdogStage} (ho : v.operation = some o)
      (he : System.isEntering o = true) (hs : stage = .starting ∨ ∃ r, stage = .posting r)
      (hg : guard = .waiting ∨ guard = .absent) :
      Move e i v ((v.put (((if v.isCurrent then o.finish else o).work stage).watch guard)).place true)
  /-- It is taken out of the register and its outcome settled. -/
  | supersede {v : View} (hc : v.isCurrent = true) :
      Move e i v { v with operation := v.operation.map .finish, isCurrent := false }
  | cancel {v : View} {o : Operation} (ho : v.operation = some o) (he : System.isEntering o = false) :
      Move e i v (v.put o.finish)
  | start {v : View} {o : Operation} (ho : v.operation = some o) (hw : o.worker = .starting) :
      Move e i v (v.put ((o.reach .running).work .checking))
  /-- Its worker looks whether the outcome is settled. -/
  | check {v : View} {o : Operation} (ho : v.operation = some o) (hw : o.worker = .checking) :
      Move e i v (v.put (o.work (if o.finished then .givingUp else .queueing)))
  /-- Its worker reports that it was cancelled before an attempt. -/
  | giveUp {v : View} {o : Operation} (ho : v.operation = some o) (hw : o.worker = .givingUp) :
      Move e i v (v.put ((o.reach .cancelled).work .releasing))
  | hold {v : View} {o : Operation} (ho : v.operation = some o) (hw : o.worker = .queueing) :
      Move e i v (v.put (o.work .attempting))
  | attempt {v : View} {o : Operation} (r : Outcome) (ho : v.operation = some o) (hw : o.worker = .attempting) :
      Move e i v (v.put (o.work (.returning r)))
  /-- Its worker gives the connection back. -/
  | giveBack {v : View} {o : Operation} {r : Outcome} (ho : v.operation = some o) (hw : o.worker = .returning r) :
      Move e i v (v.put (o.work (System.afterAttempt r).1))
  /-- Its worker waited for the user. -/
  | wake {v : View} {o : Operation} (ho : v.operation = some o) (hw : o.worker = .sleeping) :
      Move e i v (v.put (o.work .checking))
  /-- Its worker claims the outcome because the device is gone. -/
  | leave {v : View} {o : Operation} (ho : v.operation = some o) (hw : o.worker = .leaving) :
      Move e i v ((v.put (o.finish.work (.left !o.finished))).note (if o.finished then [] else [.abandoned i]))
  /-- Its worker reports that the device is gone. -/
  | part {v : View} {o : Operation} {won : Bool} (ho : v.operation = some o) (hw : o.worker = .left won) :
      Move e i v (v.put ((o.reach (if won then .failed else .cancelled)).work .releasing))
  /-- Its worker begins to deliver the outcome itself. -/
  | workerBegins {v : View} {o : Operation} {r : Outcome} (he : e = .inline) (ho : v.operation = some o)
      (hw : o.worker = .posting r) : Move e i v (v.put (o.work (.delivering (.claiming r))))
  | workerPosts {v : View} {o : Operation} {r : Outcome} (he : e = .queue) (ho : v.operation = some o)
      (hw : o.worker = .posting r) : Move e i v ((v.put (o.work .releasing)).post r)
  | workerDelivers {v : View} {o : Operation} {d : Delivery} (ho : v.operation = some o)
      (hw : o.worker = .delivering d) :
      Move e i v ((v.put ((delivered o d).work ((next o d).elim .releasing .delivering))).note (happened i o d))
  /-- Its worker takes it out of the register. -/
  | workerReleases {v : View} {o : Operation} (ho : v.operation = some o) (hw : o.worker = .releasing) :
      Move e i v ((v.put (o.work .done)).place false)
  | expire {v : View} {o : Operation} (ho : v.operation = some o) (hw : o.watchdog = .waiting) :
      Move e i v (v.put (o.watch (if o.status.isTerminal then .done else .checking)))
  /-- Its watchdog looks whether the outcome is settled. -/
  | look {v : View} {o : Operation} (ho : v.operation = some o) (hw : o.watchdog = .checking) :
      Move e i v (v.put (o.watch (if o.finished then .done else .releasing)))
  /-- Its watchdog takes it out of the register. -/
  | watchdogReleases {v : View} {o : Operation} (ho : v.operation = some o) (hw : o.watchdog = .releasing) :
      Move e i v ((v.put (o.watch .posting)).place false)
  /-- Its watchdog begins to deliver the timeout itself. -/
  | watchdogBegins {v : View} {o : Operation} (he : e = .inline) (ho : v.operation = some o)
      (hw : o.watchdog = .posting) : Move e i v (v.put (o.watch (.delivering (.claiming (.error .timeout)))))
  | watchdogPosts {v : View} {o : Operation} (he : e = .queue) (ho : v.operation = some o)
      (hw : o.watchdog = .posting) : Move e i v ((v.put (o.watch .done)).post (.error .timeout))
  | watchdogDelivers {v : View} {o : Operation} {d : Delivery} (ho : v.operation = some o)
      (hw : o.watchdog = .delivering d) :
      Move e i v ((v.put ((delivered o d).watch ((next o d).elim .done .delivering))).note (happened i o d))
  /-- The delivering thread takes up an outcome of it. -/
  | fetch {v : View} {r : Outcome} {rest : List Outcome} (hp : v.posted = r :: rest) (hd : v.delivery = none) :
      Move e i v { v with posted := rest, delivery := some (.claiming r) }
  /-- The delivering thread goes on with it. -/
  | threadDelivers {v : View} {o : Operation} {d : Delivery} (ho : v.operation = some o)
      (hd : v.delivery = some d) : Move e i v (((v.put (delivered o d)).note (happened i o d)).goOn (next o d))

end View

/-! ## Parts of steps in a view -/

namespace System

variable {σ : Type} {i k : Nat} {o : Operation} {s : System σ}

/-- The record of another operation is not seen. -/
theorem view_update_of_ne (h : k ≠ i) (f : Operation → Operation) : (s.update k f).view i = s.view i := by
  simp [view, update, h]

/-- The own record is seen. -/
theorem view_update (ho : s.operations[i]? = some o) (f : Operation → Operation) :
    (s.update i f).view i = (s.view i).put (f o) := by
  simp [view, update, View.put, ho]

@[simp]
theorem view_tell (e : Fido.Event) : (s.tell e).view i = s.view i := rfl

/-- What happens to another operation is not seen. -/
theorem view_note_of_ne {h : Happening} (hn : h.operation ≠ i) : (s.note h).view i = s.view i := by
  simp [view, note, hn]

/-- What happens to the own outcome is seen. -/
theorem view_note {h : Happening} (hn : h.operation = i) : (s.note h).view i = (s.view i).note [h] := by
  simp [view, note, View.note, hn]

/-- That another operation leaves the register is not seen. -/
theorem view_release_of_ne (h : k ≠ i) : (s.release k).view i = s.view i := by
  by_cases hc : s.current = some k
  · simp [view, release, hc, h]
  · simp [view, release, hc]

/-- That the operation leaves the register is seen. -/
theorem view_release : (s.release i).view i = (s.view i).place false := by
  by_cases hc : s.current = some i
  · simp [view, release, View.place, hc]
  · simp [view, release, View.place, hc]

/-- Whoever is superseded, the operation sees it only of itself. -/
theorem view_supersede : s.supersede.view i =
    if (s.view i).isCurrent then
      { s.view i with operation := (s.view i).operation.map Operation.finish, isCurrent := false }
    else s.view i := by
  unfold supersede
  split
  · rename_i k hk
    by_cases h : k = i
    · subst h
      simp [view, update, hk]
    · simp [view, update, hk, h]
  · rename_i hk
    simp [view, hk]

/-- That another operation's outcome is handed over is not seen. -/
theorem view_post_of_ne (h : k ≠ i) (setup : Setup σ) (deliver : Delivery → Operation → Operation)
    (goOn : Operation → Operation) (r : Outcome) : (s.post setup deliver goOn k r).view i = s.view i := by
  unfold post
  split
  · exact view_update_of_ne h _
  · have hv := view_update_of_ne (s := s) h goOn
    simp only [view, View.mk.injEq] at hv ⊢
    simp [hv, h]

/-- One step of the delivery of another operation's outcome is not seen. -/
theorem view_deliver_of_ne (h : k ≠ i) (o : Operation) (d : Delivery) : (s.deliver k o d).1.view i = s.view i := by
  match d with
  | .claiming r =>
    simp only [deliver]
    split
    · exact view_update_of_ne h _
    · rw [view_note_of_ne (by exact h), view_update_of_ne h]
  | .reporting _ false => exact view_update_of_ne h _
  | .reporting _ true => exact view_update_of_ne h _
  | .calling r =>
    simp only [deliver]
    split
    · rw [view_note_of_ne (by exact h), view_update_of_ne h]
    · rfl

/-- What comes next in a delivery. -/
theorem deliver_next (i : Nat) (o : Operation) (s : System σ) (d : Delivery) :
    (s.deliver i o d).2 = View.next o d := by
  match d with
  | .claiming _ | .reporting _ false | .reporting _ true | .calling _ => rfl

/-- One step of the delivery of the own outcome. -/
theorem view_deliver (ho : s.operations[i]? = some o) (d : Delivery) :
    (s.deliver i o d).1.view i = ((s.view i).put (View.delivered o d)).note (View.happened i o d) := by
  match d with
  | .claiming r =>
    cases hf : o.finished
    · simp only [deliver, hf, Bool.false_eq_true, if_false, View.happened, View.delivered]
      have hn : (Happening.claimed i r).operation = i := rfl
      rw [view_note hn, view_update ho]
    · simp only [deliver, hf, if_true, View.happened, View.delivered]
      rw [view_update ho]
      simp [View.note]
  | .reporting _ false | .reporting _ true =>
    simp only [deliver, View.happened, View.delivered]
    rw [view_update ho]
    simp [View.note]
  | .calling r =>
    cases hc : o.callback
    · have he : { o with callback := false } = o := by rw [← hc]
      simp only [deliver, hc, Bool.false_eq_true, if_false, View.happened, View.delivered, he]
      simp [View.note, View.put, view, ho]
    · simp only [deliver, hc, if_true, View.happened, View.delivered]
      have hn : (Happening.called i r).operation = i := rfl
      rw [view_note hn, view_update ho]

/-! ## Steps in a view -/

variable {setup : Setup σ} {s' : System σ}

/-- A step of another operation's worker is not seen. -/
theorem view_workerStep_of_ne (h : k ≠ i) (hs : workerStep? setup k o s = some s') : s'.view i = s.view i := by
  unfold workerStep? at hs
  have hu := fun f => view_update_of_ne (s := s) h f
  split at hs <;> try simp only [Option.some.injEq, reduceCtorEq] at hs
  case h_5 =>
    split at hs
    · obtain rfl := Option.some.inj hs
      exact hu _
    · cases hs
  case h_9 =>
    rw [← hs]
    split
    · exact hu _
    · rw [view_note_of_ne (by exact h)]
      exact hu _
  case h_11 =>
    rw [← hs]
    exact view_post_of_ne h ..
  case h_12 d _ =>
    rw [← hs, view_update_of_ne h]
    exact view_deliver_of_ne h o d
  case h_13 =>
    rw [← hs, view_update_of_ne h, view_release_of_ne h]
  all_goals
    rw [← hs]
    exact hu _

/-- A step of another operation's watchdog is not seen. -/
theorem view_watchdogStep_of_ne (h : k ≠ i) (hs : watchdogStep? setup k o s = some s') : s'.view i = s.view i := by
  unfold watchdogStep? at hs
  have hu := fun f => view_update_of_ne (s := s) h f
  split at hs <;> try simp only [Option.some.injEq, reduceCtorEq] at hs
  case h_2 =>
    rw [← hs]
    exact hu _
  case h_3 =>
    split at hs
    all_goals
      obtain rfl := Option.some.inj hs
      exact hu _
  case h_4 =>
    rw [← hs, view_update_of_ne h, view_release_of_ne h]
  case h_5 =>
    rw [← hs]
    exact view_post_of_ne h ..
  case h_6 d _ =>
    rw [← hs, view_update_of_ne h]
    exact view_deliver_of_ne h o d

/-- The own outcome is handed over to be delivered at once. -/
theorem view_post_inline (he : setup.executor = .inline) (ho : s.operations[i]? = some o)
    (deliver : Delivery → Operation → Operation) (goOn : Operation → Operation) (r : Outcome) :
    (s.post setup deliver goOn i r).view i = (s.view i).put (deliver (.claiming r) o) := by
  unfold post
  rw [he]
  exact view_update ho _

/-- The own outcome is posted. -/
theorem view_post_queue (he : setup.executor = .queue) (ho : s.operations[i]? = some o)
    (deliver : Delivery → Operation → Operation) (goOn : Operation → Operation) (r : Outcome) :
    (s.post setup deliver goOn i r).view i = ((s.view i).put (goOn o)).post r := by
  unfold post
  rw [he]
  simp [view, update, View.put, View.post, ho]

/-- A step of the worker is a move. -/
theorem move_workerStep (ho : s.operations[i]? = some o) (hs : workerStep? setup i o s = some s') :
    View.Move setup.executor i (s.view i) (s'.view i) := by
  unfold workerStep? at hs
  have hu := fun f => view_update ho f
  split at hs <;> rename_i hw
  · cases hs
  · obtain rfl := Option.some.inj hs
    rw [view_tell, hu]
    exact .start ho hw
  · obtain rfl := Option.some.inj hs
    rw [hu]
    exact .check ho hw
  · obtain rfl := Option.some.inj hs
    rw [hu]
    exact .giveUp ho hw
  · split at hs
    · obtain rfl := Option.some.inj hs
      exact hu (Operation.work .attempting) ▸ .hold ho hw
    · cases hs
  · obtain rfl := Option.some.inj hs
    exact hu (Operation.work (.returning (attempt setup o.command s.connection).1)) ▸ .attempt _ ho hw
  · rename_i r
    obtain rfl := Option.some.inj hs
    exact hu (Operation.work (afterAttempt r).1) ▸ .giveBack ho hw
  · obtain rfl := Option.some.inj hs
    rw [hu]
    exact .wake ho hw
  · obtain rfl := Option.some.inj hs
    have hm := View.Move.leave (e := setup.executor) (i := i) (v := s.view i) ho hw
    cases hf : o.finished
    · have hn : (Happening.abandoned i).operation = i := rfl
      simp only [hf, Bool.false_eq_true, if_false] at hm ⊢
      rw [view_note hn, view_tell, hu]
      simpa only [hf] using hm
    · simp only [hf, if_true] at hm ⊢
      rw [view_tell, hu]
      simpa [View.note, hf] using hm
  · obtain rfl := Option.some.inj hs
    rw [hu]
    exact .part ho hw
  · rename_i r
    obtain rfl := Option.some.inj hs
    cases he : setup.executor with
    | inline =>
      rw [view_post_inline he ho]
      exact .workerBegins rfl ho hw
    | queue =>
      rw [view_post_queue he ho]
      exact .workerPosts rfl ho hw
  · rename_i d
    have hs' : (s.deliver i o d).1.update i (Operation.work ((s.deliver i o d).2.elim .releasing .delivering)) = s' :=
      Option.some.inj hs
    have hv := view_deliver ho d
    rw [← hs', view_update (congrArg View.operation hv), hv, deliver_next]
    exact .workerDelivers ho hw
  · obtain rfl := Option.some.inj hs
    have hr : (s.release i).operations[i]? = some o := ho
    rw [view_update hr, view_release]
    exact .workerReleases ho hw
  · cases hs

/-- A step of the watchdog is a move. -/
theorem move_watchdogStep (ho : s.operations[i]? = some o) (hs : watchdogStep? setup i o s = some s') :
    View.Move setup.executor i (s.view i) (s'.view i) := by
  unfold watchdogStep? at hs
  have hu := fun f => view_update ho f
  split at hs <;> rename_i hw
  · cases hs
  · obtain rfl := Option.some.inj hs
    rw [hu]
    exact .expire ho hw
  · have hm := View.Move.look (e := setup.executor) (i := i) (v := s.view i) ho hw
    split at hs
    all_goals
      rename_i hf
      obtain rfl := Option.some.inj hs
      simp only [hf, Bool.false_eq_true, if_true, if_false] at hm
      exact hu _ ▸ hm
  · obtain rfl := Option.some.inj hs
    have hr : (s.release i).operations[i]? = some o := ho
    rw [view_update hr, view_release]
    exact .watchdogReleases ho hw
  · obtain rfl := Option.some.inj hs
    cases he : setup.executor with
    | inline =>
      rw [view_post_inline he ho]
      exact .watchdogBegins rfl ho hw
    | queue =>
      rw [view_post_queue he ho]
      exact .watchdogPosts rfl ho hw
  · rename_i d
    have hs' : (s.deliver i o d).1.update i (Operation.watch ((s.deliver i o d).2.elim .done .delivering)) = s' :=
      Option.some.inj hs
    have hv := view_deliver ho d
    rw [← hs', view_update (congrArg View.operation hv), hv, deliver_next]
    exact .watchdogDelivers ho hw
  · cases hs

/-- How the delivering thread goes on with another operation's outcome is not seen. -/
theorem view_goOn_of_ne {d : Delivery} (h : k ≠ i) (hd : s.delivery = some (k, d)) (next : Option Delivery) :
    ({ s with delivery := next.map (k, ·) } : System σ).view i = s.view i := by
  cases next <;> simp [view, hd, h]

/-- How the delivering thread goes on with the own outcome is seen. -/
theorem view_goOn (next : Option Delivery) :
    ({ s with delivery := next.map (i, ·) } : System σ).view i = (s.view i).goOn next := by
  cases next <;> simp [view, View.goOn]

/-- A step of a delivery leaves the stage of the delivering thread to that thread. -/
theorem delivery_deliver (k : Nat) (o : Operation) (s : System σ) (d : Delivery) :
    (s.deliver k o d).1.delivery = s.delivery := by
  match d with
  | .claiming r =>
    simp only [deliver]
    split <;> rfl
  | .reporting _ false | .reporting _ true => rfl
  | .calling r =>
    simp only [deliver]
    split <;> rfl

/-- A step of a delivery leaves the posted outcomes alone. -/
theorem posted_deliver (k : Nat) (o : Operation) (s : System σ) (d : Delivery) :
    (s.deliver k o d).1.posted = s.posted := by
  match d with
  | .claiming r =>
    simp only [deliver]
    split <;> rfl
  | .reporting _ false | .reporting _ true => rfl
  | .calling r =>
    simp only [deliver]
    split <;> rfl

/-- The delivering thread goes on with the outcome it is at. -/
theorem executorStep_delivering {d : Delivery} (hd : s.delivery = some (k, d)) (ho : s.operations[k]? = some o) :
    ∃ s', s.executorStep? = some s' ∧ s'.posted = s.posted ∧ s'.delivery = (View.next o d).map (k, ·) ∧
      s'.view k = (((s.view k).put (View.delivered o d)).note (View.happened k o d)).goOn (View.next o d) ∧
      ∀ i, k ≠ i → s'.view i = s.view i := by
  have hs : s.executorStep? = some { (s.deliver k o d).1 with delivery := (s.deliver k o d).2.map (k, ·) } := by
    simp [executorStep?, hd, ho]
  have hd' : (s.deliver k o d).1.delivery = some (k, d) := by rw [delivery_deliver, hd]
  refine ⟨_, hs, posted_deliver k o s d, by rw [deliver_next], ?_, fun i hi => ?_⟩
  · rw [view_goOn, view_deliver ho, deliver_next]
  · rw [view_goOn_of_ne hi hd', view_deliver_of_ne hi]

/-- The delivering thread takes up the first outcome that was posted. -/
theorem executorStep_fetching {r : Outcome} {rest : List (Nat × Outcome)} (hd : s.delivery = none)
    (hp : s.posted = (k, r) :: rest) :
    ∃ s', s.executorStep? = some s' ∧ s'.posted = rest ∧ s'.delivery = some (k, .claiming r) ∧
      (∃ l, (s.view k).posted = r :: l ∧ s'.view k = { s.view k with posted := l, delivery := some (.claiming r) }) ∧
      ∀ i, k ≠ i → s'.view i = s.view i := by
  have hs : s.executorStep? = some { s with delivery := some (k, .claiming r), posted := rest } := by
    simp [executorStep?, hd, hp]
  refine ⟨_, hs, rfl, rfl, ⟨rest.filterMap fun p => if p.1 = k then some p.2 else none, ?_, ?_⟩, fun i hi => ?_⟩
  · simp [view, hp]
  · simp [view]
  · simp [view, hp, hd, hi]

/-- A step of the delivering thread is a move, or is not seen. -/
theorem view_executorStep (hs : s.executorStep? = some s') :
    s'.view i = s.view i ∨ View.Move setup.executor i (s.view i) (s'.view i) := by
  cases hd : s.delivery with
  | some p =>
    obtain ⟨k, d⟩ := p
    have hb := hs
    rw [executorStep?, hd] at hb
    obtain ⟨o, ho, -⟩ := Option.bind_eq_some_iff.mp hb
    obtain ⟨t, ht, -, -, hv, hn⟩ := executorStep_delivering hd ho
    obtain rfl := Option.some.inj (hs.symm.trans ht)
    by_cases h : k = i
    · subst h
      rw [hv]
      exact .inr (.threadDelivers ho (by simp [view, hd]))
    · exact .inl (hn i h)
  | none =>
    cases hp : s.posted with
    | nil =>
      rw [executorStep?, hd, hp] at hs
      cases hs
    | cons p rest =>
      obtain ⟨k, r⟩ := p
      obtain ⟨t, ht, -, -, ⟨l, hl, hv⟩, hn⟩ := executorStep_fetching hd hp
      obtain rfl := Option.some.inj (hs.symm.trans ht)
      by_cases h : k = i
      · subst h
        rw [hv]
        exact .inr (.fetch hl (by simp [view, hd]))
      · exact .inl (hn i h)

/-- Nobody is current once the current operation was superseded. -/
theorem isCurrent_supersede : (s.supersede.view i).isCurrent = false := by
  rw [view_supersede]
  split <;> simp_all

/-- That another operation enters the register is seen as a supersession. -/
theorem view_enter_of_ne (h : k ≠ i) (worker watchdog : Bool) :
    (s.enter setup k worker watchdog).view i = s.supersede.view i := by
  have hu := fun f => view_update_of_ne (s := s.supersede) h f
  have hc := isCurrent_supersede (i := i) (s := s)
  simp only [view, enter, View.mk.injEq] at hu hc ⊢
  simp [hu, hc, h]

/-- The operation in the register. -/
theorem view_enter (ho : s.operations[i]? = some o) (he : isEntering o = true) (worker watchdog : Bool) :
    View.Move setup.executor i (s.view i) ((s.enter setup i worker watchdog).view i) := by
  generalize hst : (if worker then WorkerStage.starting
    else .posting (.error (.protocol "failed to spawn operation thread"))) = stage
  generalize hgd : (if worker && watchdog && setup.deadline.isSome then WatchdogStage.waiting else .absent) = guard
  have hs : s.supersede.operations[i]? = some (if (s.view i).isCurrent then o.finish else o) := by
    have h := congrArg View.operation (view_supersede (i := i) (s := s))
    rw [apply_ite View.operation] at h
    refine h.trans ?_
    split <;> simp [view, ho]
  have hp : s.supersede.posted = s.posted ∧ s.supersede.delivery = s.delivery ∧ s.supersede.history = s.history := by
    unfold supersede
    split <;> simp [update]
  have hv : (s.enter setup i worker watchdog).view i =
      ((s.view i).put (((if (s.view i).isCurrent then o.finish else o).work stage).watch guard)).place true := by
    simp only [enter, hst, hgd]
    simp [view, View.put, View.place, update, hs, hp]
  rw [hv]
  refine .enter ho he ?_ ?_
  · cases worker
    · exact .inr ⟨_, hst.symm⟩
    · exact .inl hst.symm
  · rw [← hgd]
    split
    · exact .inl rfl
    · exact .inr rfl

/-- The calls that end what is current leave the views of all others alone. -/
theorem view_supersede_step (e : Executor) : s.supersede.view i = s.view i ∨
    View.Move e i (s.view i) (s.supersede.view i) := by
  rw [view_supersede]
  split
  · exact .inr (.supersede ‹_›)
  · exact .inl rfl

/-- A step of the system is a move of every view, or is not seen. -/
theorem view_step {step : Step} (hs : s.step? setup step = some s') :
    s'.view i = s.view i ∨ View.Move setup.executor i (s.view i) (s'.view i) := by
  cases step with
  | create c =>
    simp only [step?] at hs
    split at hs
    · cases hs
    · obtain rfl := Option.some.inj hs
      rcases Nat.lt_trichotomy i s.operations.length with h | h | h
      · left
        simp [view, List.getElem?_append_left h]
      · have hv : ({ s with operations := s.operations ++ [.new c] } : System σ).view i = (s.view i).put (.new c) := by
          simp [view, View.put, h]
        rw [hv]
        exact .inr (.create c (by simp [view, h]))
      · left
        have hn : (s.operations ++ [Operation.new c])[i]? = none := by simp; omega
        have ho : s.operations[i]? = none := by simp; omega
        simp only [view, hn, ho]
  | enter k worker watchdog =>
    obtain ⟨o, ho, hs⟩ := Option.bind_eq_some_iff.mp hs
    split at hs
    · rename_i he
      obtain rfl := Option.some.inj hs
      by_cases h : k = i
      · subst h
        exact .inr (view_enter ho (Bool.and_eq_true_iff.mp he).1 worker watchdog)
      · rw [view_enter_of_ne h]
        exact view_supersede_step _
    · cases hs
  | cancel =>
    simp only [step?] at hs
    split at hs
    · cases hs
    · obtain rfl := Option.some.inj hs
      exact view_supersede_step _
  | cancelOperation k =>
    obtain ⟨o, ho, hs⟩ := Option.bind_eq_some_iff.mp hs
    split at hs
    · cases hs
    · rename_i he
      obtain rfl := Option.some.inj hs
      by_cases h : k = i
      · subst h
        rw [view_update ho]
        exact .inr (.cancel ho (by simpa using he))
      · exact .inl (view_update_of_ne h _)
  | close =>
    simp only [step?] at hs
    split at hs
    · cases hs
    · obtain rfl := Option.some.inj hs
      exact view_supersede_step _
  | worker k =>
    obtain ⟨o, ho, hs⟩ := Option.bind_eq_some_iff.mp hs
    by_cases h : k = i
    · subst h
      exact .inr (move_workerStep ho hs)
    · exact .inl (view_workerStep_of_ne h hs)
  | watchdog k =>
    obtain ⟨o, ho, hs⟩ := Option.bind_eq_some_iff.mp hs
    by_cases h : k = i
    · subst h
      exact .inr (move_watchdogStep ho hs)
    · exact .inl (view_watchdogStep_of_ne h hs)
  | executor => exact view_executorStep hs

/-! ## Runs in a view -/

/-- Before anything was submitted, no operation exists. -/
theorem view_new (connection : Fido.Session σ) : (new connection).view i = .empty := by
  simp [view, new, View.empty]

/-- What every move of a view keeps, every run keeps. -/
theorem view_replay {P : View → Prop} (hm : ∀ v v', P v → View.Move setup.executor i v v' → P v') :
    ∀ {steps : List Step} {s s' : System σ}, s.replay? setup steps = some s' → P (s.view i) → P (s'.view i)
  | [], _, _, hr, hp => by
    obtain rfl := Option.some.inj hr
    exact hp
  | step :: rest, s, s', hr, hp => by
    obtain ⟨t, hs, hr⟩ := Option.bind_eq_some_iff.mp hr
    apply view_replay hm hr
    rcases view_step (i := i) hs with h | h
    · rw [h]
      exact hp
    · exact hm _ _ hp h

end System

end SecurityKey.Background
