import SecurityKey.Background.Operation

/-!
# Operations that run at the same time

At most one operation is current: it stands in the register until its worker or watchdog takes it out, or another one
supersedes it. All workers share one connection, which they hold during an attempt. Outcomes are delivered by the
thread that has them or, in the order they were posted, by a thread of its own.

`System.step?` is one atomic step of one thread or one call from outside, and `System.replay?` is a sequence of them:
any order in which the steps are possible is a run.
-/

namespace SecurityKey.Background

/-! ## What the system is made of -/

/-- A card that may break down while it is used. -/
structure Device (σ : Type) where
  card : Card σ
  /-- Whether the card broke down, and with which words if it has any. -/
  breakdown? : σ → Option (Option String)
  /-- The card after a breakdown was noticed. -/
  recover : σ → σ

/-- Who delivers outcomes. -/
inductive Executor
  /-- The thread that has the outcome. -/
  | inline
  /-- A thread of its own. -/
  | queue
  deriving DecidableEq

/-- What does not change. -/
structure Setup (σ : Type) where
  device : Device σ
  config : Fido.Config
  executor : Executor
  /-- How long an operation may take, in milliseconds. -/
  deadline : Option Nat

/-- What happened to outcomes. -/
inductive Happening
  /-- The right to deliver an outcome was claimed. -/
  | claimed (operation : Nat) (r : Outcome)
  /-- The outcome was claimed because the device is gone. -/
  | abandoned (operation : Nat)
  | called (operation : Nat) (r : Outcome)

/-- Everything that threads share. -/
structure System (σ : Type) where
  /-- The operations in the order they were created. -/
  operations : List Operation
  current : Option Nat
  connection : Fido.Session σ
  /-- Whose worker holds the connection. -/
  holder : Option Nat
  posted : List (Nat × Outcome)
  /-- What the delivering thread is at. -/
  delivery : Option (Nat × Delivery)
  /-- Whether no operation can be submitted any more. -/
  closed : Bool
  /-- What was told to diagnostics, in order. -/
  events : List Fido.Event
  /-- What happened to outcomes, in order. -/
  history : List Happening

/-- An atomic step. -/
inductive Step
  /-- A command is given the next number. -/
  | create (c : Fido.Command)
  /-- A created operation enters the register; whether its threads can be started. -/
  | enter (operation : Nat) (worker watchdog : Bool)
  | cancel
  | cancelOperation (operation : Nat)
  /-- The current operation is cancelled for good. -/
  | close
  /-- The worker of an operation goes on. -/
  | worker (operation : Nat)
  /-- The watchdog of an operation goes on. -/
  | watchdog (operation : Nat)
  | executor

namespace System

variable {σ : Type}

/-- The system before anything was submitted. -/
def new (connection : Fido.Session σ) : System σ := ⟨[], none, connection, none, [], none, false, [], []⟩

/-! ## Parts of steps -/

/-- The system with one operation changed. -/
def update (i : Nat) (f : Operation → Operation) (s : System σ) : System σ :=
  { s with operations := s.operations.modify i f }

/-- The system after something was told to diagnostics. -/
def tell (e : Fido.Event) (s : System σ) : System σ := { s with events := s.events ++ [e] }

/-- The system after something happened to an outcome. -/
def note (h : Happening) (s : System σ) : System σ := { s with history := s.history ++ [h] }

/-- The system after the given operation left the register, if it was there. -/
def release (i : Nat) (s : System σ) : System σ :=
  { s with current := if s.current = some i then none else s.current }

/-- The system after the current operation was taken out of the register and its outcome settled. -/
def supersede (s : System σ) : System σ :=
  match s.current with
  | some i => { s.update i Operation.finish with current := none }
  | none => s

/-- The system after an outcome was handed over; the first two arguments say how the thread goes on, delivering or
not. -/
def post (setup : Setup σ) (deliver : Delivery → Operation → Operation) (goOn : Operation → Operation) (i : Nat)
    (r : Outcome) (s : System σ) : System σ :=
  match setup.executor with
  | .inline => s.update i (deliver (.claiming r))
  | .queue => { s.update i goOn with posted := s.posted ++ [(i, r)] }

/-- The status that a delivery reports. -/
def deliveredStatus : Outcome → Status
  | .ok _ => .completed
  | .error _ => .failed

/-- One step of a delivery, and what comes next in it. -/
def deliver (i : Nat) (o : Operation) (s : System σ) : Delivery → System σ × Option Delivery
  | .claiming r =>
    let s := s.update i Operation.finish
    (if o.finished then s else s.note (.claimed i r), some (.reporting r !o.finished))
  | .reporting _ false => (s.update i (Operation.reach .cancelled), none)
  | .reporting r true => (s.update i (Operation.reach (deliveredStatus r)), some (.calling r))
  | .calling r =>
    (if o.callback then (s.update i fun o => { o with callback := false }).note (.called i r) else s, none)

/-- One attempt at a command. A breakdown of the device is an error of its own. -/
def attempt (setup : Setup σ) (c : Fido.Command) (connection : Fido.Session σ) : Outcome × Fido.Session σ :=
  let (r, connection) := Fido.execute setup.device.card setup.config c connection
  match setup.device.breakdown? connection.card with
  | some words =>
    (.error (.protocol ("operation panicked: " ++ words.getD "unknown panic")),
      { connection with card := setup.device.recover connection.card })
  | none => (r, connection)

/-! ## Threads -/

/-- What a worker does after an attempt, and what diagnostics are told of it. -/
def afterAttempt : Outcome → WorkerStage × List Fido.Event
  | .ok a => (.posting (.ok a), [])
  | .error .presenceRequired => (.sleeping, [])
  | .error e => if e.isDisconnect then (.leaving, []) else (.posting (.error e), [.captured e])

/-- One step of the worker of an operation, if it can go on. -/
def workerStep? (setup : Setup σ) (i : Nat) (o : Operation) (s : System σ) : Option (System σ) :=
  match o.worker with
  | .absent => none
  | .starting =>
    some ((s.update i fun o => (o.reach .running).work .checking).tell (.breadcrumb "operation started"))
  | .checking => some (s.update i fun o => o.work (if o.finished then .givingUp else .queueing))
  | .givingUp => some (s.update i fun o => (o.reach .cancelled).work .releasing)
  | .queueing =>
    if s.holder.isNone then some { s.update i (Operation.work .attempting) with holder := some i } else none
  | .attempting =>
    let (r, connection) := attempt setup o.command s.connection
    some { s.update i (Operation.work (.returning r)) with connection }
  | .returning r =>
    let (stage, told) := afterAttempt r
    let connection := if o.finished then s.connection.clearPinToken else s.connection
    some { s.update i (Operation.work stage) with connection, holder := none, events := s.events ++ told }
  | .sleeping => some (s.update i (Operation.work .checking))
  | .leaving =>
    let s := (s.update i fun o => o.finish.work (.left !o.finished)).tell
      (.breadcrumb "transport gone during operation")
    some (if o.finished then s else s.note (.abandoned i))
  | .left won => some (s.update i fun o => (o.reach (if won then .failed else .cancelled)).work .releasing)
  | .posting r => some (s.post setup (fun d => Operation.work (.delivering d)) (Operation.work .releasing) i r)
  | .delivering d =>
    let (s, next) := s.deliver i o d
    some (s.update i (Operation.work (next.elim .releasing .delivering)))
  | .releasing => some ((s.release i).update i (Operation.work .done))
  | .done => none

/-- One step of the watchdog of an operation, if it can go on. While it waits, a step means that the operation is in a
terminal status or the deadline has passed. -/
def watchdogStep? (setup : Setup σ) (i : Nat) (o : Operation) (s : System σ) : Option (System σ) :=
  match o.watchdog with
  | .absent => none
  | .waiting => some (s.update i (Operation.watch (if o.status.isTerminal then .done else .checking)))
  | .checking =>
    if o.finished then some (s.update i (Operation.watch .done))
    else some ((s.update i (Operation.watch .releasing)).tell (.breadcrumb "operation deadline expired"))
  | .releasing => some ((s.release i).update i (Operation.watch .posting))
  | .posting =>
    some (s.post setup (fun d => Operation.watch (.delivering d)) (Operation.watch .done) i (.error .timeout))
  | .delivering d =>
    let (s, next) := s.deliver i o d
    some (s.update i (Operation.watch (next.elim .done .delivering)))
  | .done => none

/-- One step of the delivering thread, if it has anything to do. -/
def executorStep? (s : System σ) : Option (System σ) :=
  match s.delivery with
  | some (i, d) => do
    let o ← s.operations[i]?
    let (s, next) := s.deliver i o d
    return { s with delivery := next.map (i, ·) }
  | none =>
    match s.posted with
    | (i, r) :: rest => some { s with delivery := some (i, .claiming r), posted := rest }
    | [] => none

/-- A created operation in the register, in place of the one before. Where the worker cannot be started, the failure
is handed over at once. -/
def enter (setup : Setup σ) (i : Nat) (worker watchdog : Bool) (s : System σ) : System σ :=
  let stage := if worker then .starting else .posting (.error (.protocol "failed to spawn operation thread"))
  let guard := if worker && watchdog && setup.deadline.isSome then .waiting else .absent
  { s.supersede.update i fun o => (o.work stage).watch guard with current := some i }

/-! ## Runs -/

/-- Whether an operation was created and has not entered the register. -/
def isEntering (o : Operation) : Bool :=
  match o.worker with
  | .absent => true
  | _ => false

/-- One atomic step, if it is possible. -/
def step? (setup : Setup σ) (s : System σ) : Step → Option (System σ)
  | .create c => if s.closed then none else some { s with operations := s.operations ++ [.new c] }
  | .enter i worker watchdog => do
    let o ← s.operations[i]?
    if isEntering o && !s.closed then return s.enter setup i worker watchdog else none
  | .cancel => if s.closed then none else some s.supersede
  | .cancelOperation i => do
    let o ← s.operations[i]?
    if isEntering o then none else return s.update i Operation.finish
  | .close => if s.closed || s.operations.any isEntering then none else some { s.supersede with closed := true }
  | .worker i => do workerStep? setup i (← s.operations[i]?) s
  | .watchdog i => do watchdogStep? setup i (← s.operations[i]?) s
  | .executor => s.executorStep?

/-- A sequence of steps, if each of them is possible where it comes. -/
def replay? (setup : Setup σ) : System σ → List Step → Option (System σ)
  | s, [] => some s
  | s, step :: rest => do replay? setup (← s.step? setup step) rest

/-- The outcomes that the callback of an operation was started with, in order. -/
def delivered (i : Nat) (s : System σ) : List Outcome :=
  s.history.filterMap fun
    | .called k r => if k = i then some r else none
    | _ => none

/-- Whether an operation is current. -/
def isRunning (s : System σ) : Bool := s.current.isSome

end System

end SecurityKey.Background
