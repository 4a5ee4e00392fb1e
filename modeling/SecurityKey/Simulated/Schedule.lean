import SecurityKey.Background.System
import SecurityKey.Simulated.Card

/-!
# Background operations on a simulated clock

A run of background operations over a simulated card. Threads that can go on do so in the order of their operations;
only when none of them can does the clock go on to the next moment at which one can again: a worker wakes up, a
deadline passes, or the sensor stops waiting for a touch. So a run is one of the runs of `Background.System`, and it
is always the same one.
-/

namespace SecurityKey.Simulated

open Background (Setup Step System)

/-- What may happen when time passes. -/
inductive Timer
  /-- A worker tries again. -/
  | wake (operation : Nat)
  /-- A deadline passes. -/
  | deadline (operation : Nat)
  /-- The sensor stops waiting. -/
  | sensor (touches : Nat)
  deriving DecidableEq

/-- A run up to some moment. -/
structure Run where
  system : System Card
  /-- The time in microseconds. -/
  now : Nat
  /-- What is going to happen, and when. -/
  timers : List (Timer × Nat)
  /-- How many requests for a touch were waited for. -/
  awaited : Nat
  /-- How much of the card's record was shown. -/
  shown : Nat

/-- A simulated card as a device. -/
def device : Background.Device Card where
  card := Card.card
  breakdown? c :=
    match c.interruption with
    | some (.breakdown words) => some words
    | _ => none
  recover c := { c with interruption := none }

/-- That many milliseconds, in microseconds. -/
def milliseconds (n : Nat) : Nat := 1000 * n

/-- How long the sensor waits for a touch, in microseconds. -/
def sensorPatience : Nat := milliseconds 5000

/-- How long a worker takes to try again apart from its delay, in microseconds. It is not zero: the clock goes on
while a worker without a delay tries again and again, and a deadline is reached. -/
def retryTime : Nat := 100

/-- How many steps a run may take before it is stopped. -/
def maxSteps : Nat := 100000

namespace Run

variable (setup : Setup Card)

/-- The run at its beginning. -/
def new (c : Card) : Run := ⟨.new (.new c), 0, [], 0, 0⟩

/-- The card as it is now, in the middle of an attempt if there is one. -/
def card (r : Run) : Card :=
  let s := r.system
  match s.holder.bind (s.operations[·]?) with
  | some ⟨command, _, _, _, .attempting, _⟩ => (System.attempt setup command s.connection).2.card
  | _ => s.connection.card

/-- Whether the attempt under way waits for a touch. -/
def isWaiting (r : Run) : Bool :=
  match (r.card setup).interruption with
  | some .waiting => true
  | _ => false

/-- How many touches were waited for, where the sensor waits for touches. -/
def touches (r : Run) : Nat :=
  let c := r.card setup
  match c.sensor with
  | .allowed _ => (c.authenticator.map (·.touches)).getD 0 + if r.isWaiting setup then 1 else 0
  | _ => 0

/-- The user touches once more. -/
def touch (r : Run) : Run :=
  let s := r.system
  let c := s.connection.card
  let c := match c.sensor with
    | .allowed n => { c with sensor := .allowed (n + 1) }
    | _ => c
  { r with system := { s with connection := { s.connection with card := c } } }

/-! ## Threads -/

/-- The steps of an operation's threads that need no time. -/
def promptSteps (waiting : Bool) (i : Nat) (o : Background.Operation) : List Step :=
  let worker := match o.worker with
    | .sleeping => []
    | .attempting => if waiting then [] else [.worker i]
    | _ => [.worker i]
  let watchdog := match o.watchdog with
    | .waiting => if o.status.isTerminal then [.watchdog i] else []
    | _ => [.watchdog i]
  worker ++ watchdog

/-- The system after the first step that needs no time, if there is one. -/
def promptStep? (r : Run) : Option (System Card) :=
  let s := r.system
  let steps := s.operations.zipIdx.flatMap fun (o, i) => promptSteps (r.isWaiting setup) i o
  (Step.executor :: steps).findSome? (s.step? setup)

/-- The run after all steps that need no time, or as soon as `stop` holds. -/
def settle (stop : Run → Bool) : Nat → Run → Run
  | 0, r => r
  | fuel + 1, r =>
    if stop r then r
    else match r.promptStep? setup with
      | some system => settle stop fuel { r with system }
      | none => r

/-! ## Time -/

/-- The timers of an operation's threads, and how long they take in microseconds. -/
def threadTimers (i : Nat) (o : Background.Operation) : List (Timer × Nat) :=
  let worker := match o.worker with
    | .sleeping => [(.wake i, retryTime + milliseconds setup.config.presenceDelay)]
    | _ => []
  let watchdog := match o.watchdog with
    | .waiting => [(.deadline i, milliseconds (setup.deadline.getD 0))]
    | _ => []
  worker ++ watchdog

/-- The timers that run now, and how long they take. -/
def dueTimers (r : Run) : List (Timer × Nat) :=
  let sensor := if r.isWaiting setup then [(Timer.sensor (r.touches setup), sensorPatience)] else []
  (r.system.operations.zipIdx.flatMap fun (o, i) => threadTimers setup i o) ++ sensor

/-- The run with its timers started. Those that run already keep their time. -/
def arm (r : Run) : Run :=
  let start (t : Timer × Nat) : Timer × Nat :=
    (t.1, ((r.timers.find? fun u => u.1 = t.1).map (·.2)).getD (r.now + t.2))
  { r with timers := (r.dueTimers setup).map start }

/-- What happens when a timer goes off. -/
def fire (t : Timer) (r : Run) : Run :=
  let go (step : Step) : Run := { r with system := (r.system.step? setup step).getD r.system }
  match t with
  | .wake i => go (.worker i)
  | .deadline i => go (.watchdog i)
  | .sensor _ => r.touch

/-- The earliest of some timers. -/
def earliest? (timers : List (Timer × Nat)) : Option (Timer × Nat) :=
  timers.foldl (fun best t => match best with
    | some b => if t.2 < b.2 then some t else best
    | none => some t) none

/-- The run until `stop` holds or nothing can happen any more. -/
def advance (stop : Run → Bool) : Nat → Run → Run
  | 0, r => r
  | fuel + 1, r =>
    let r := arm setup (settle setup stop maxSteps r)
    if stop r then r
    else match earliest? r.timers with
      | some (t, time) =>
        advance stop fuel (fire setup t { r with now := time, timers := r.timers.filter (·.1 ≠ t) })
      | none => r

/-- The run until `stop` holds and no thread can go on at once. -/
def await (stop : Run → Bool) (r : Run) : Run :=
  settle setup (fun _ => false) maxSteps (advance setup stop maxSteps r)

/-! ## Calls from outside -/

/-- A step of a call from outside, where it is possible. -/
def call (step : Step) (r : Run) : Run := { r with system := (r.system.step? setup step).getD r.system }

/-- A command submitted. Its threads begin when somebody waits. -/
def submit (c : Fido.Command) (r : Run) : Run :=
  (r.call setup (.create c)).call setup (.enter r.system.operations.length true true)

/-- The status of an operation. -/
def status? (i : Nat) (r : Run) : Option Background.Status := r.system.operations[i]?.map (·.status)

/-- Whether an operation is in a terminal status. -/
def isOver (i : Nat) (r : Run) : Bool := ((r.status? i).map (·.isTerminal)).getD true

/-- The run once the sensor waits for a touch that nobody waited for before; whether it does. -/
def awaitTouch (r : Run) : Bool × Run :=
  let r := advance setup (fun r => r.awaited < r.touches setup) maxSteps r
  (r.awaited < r.touches setup, { r with awaited := r.awaited + 1 })

/-- What was done to the card since this was asked last. -/
def newDeeds (r : Run) : List Deed × Run :=
  let deeds := (r.card setup).deeds
  (deeds.drop r.shown, { r with shown := deeds.length })

/-- The run once the connection is free. -/
def awaitConnection (r : Run) : Run := advance setup (fun r => r.system.holder.isNone) maxSteps r

/-- The connection connected, once it is free. -/
def connect (r : Run) : Except Error Unit × Run :=
  let r := r.awaitConnection setup
  let (a, connection) := Fido.Session.connect setup.device.card setup.config r.system.connection
  (a, { r with system := { r.system with connection } })

end Run

end SecurityKey.Simulated
