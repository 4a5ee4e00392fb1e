import SecurityKey.Fido.Operation

/-!
# Operations in the background

A command that was submitted is carried out by a worker thread of its own, possibly under the eyes of a watchdog
thread with a deadline. Both threads share two things with everybody else: a flag that says that the outcome is
settled, and a state that is sticky once it is terminal. Whoever sets the flag first decides what becomes of the
outcome.

Threads are given by what they do next (`WorkerStage`, `WatchdogStage`, `Delivery`).
-/

namespace SecurityKey.Background

/-- What a command results in. -/
abbrev Outcome := Except Error Fido.Answer

/-! ## States -/

/-- How far an operation has come, as others see it. -/
inductive Status
  | created
  | running
  | completed
  | cancelled
  /-- An error was delivered, or the device is gone. -/
  | failed
  deriving DecidableEq

/-- The name of a status. -/
def Status.name : Status → String
  | created => "Created"
  | running => "Running"
  | completed => "Completed"
  | cancelled => "Cancelled"
  | failed => "Failed"

/-- Whether a status is the last one. -/
def Status.isTerminal : Status → Bool
  | created => false
  | running => false
  | completed => true
  | cancelled => true
  | failed => true

/-! ## Threads -/

/-- What comes next in the delivery of an outcome. -/
inductive Delivery
  /-- Claim the right to deliver. -/
  | claiming (r : Outcome)
  /-- Report the status, given whether the claim succeeded. -/
  | reporting (r : Outcome) (won : Bool)
  | calling (r : Outcome)

/-- What a worker does next. -/
inductive WorkerStage
  /-- The operation is not in the register yet. -/
  | absent
  | starting
  /-- Look whether the outcome is settled. -/
  | checking
  /-- Report that the operation was cancelled before an attempt. -/
  | givingUp
  /-- Wait for the connection. -/
  | queueing
  /-- Try the command, on the connection it holds. -/
  | attempting
  /-- Give the connection back, without its token where the outcome was settled meanwhile. -/
  | returning (r : Outcome)
  /-- Wait for the user before the next attempt. -/
  | sleeping
  /-- Claim the outcome because the device is gone. -/
  | leaving
  /-- Report the status, given whether that claim succeeded. -/
  | left (won : Bool)
  /-- Hand the outcome over for delivery. -/
  | posting (r : Outcome)
  | delivering (d : Delivery)
  /-- Leave the register. -/
  | releasing
  | done

/-- What a watchdog does next. -/
inductive WatchdogStage
  | absent
  /-- Wait for a terminal status or the deadline. -/
  | waiting
  /-- Look whether the outcome is settled. -/
  | checking
  /-- Take the operation out of the register. -/
  | releasing
  /-- Hand the timeout over for delivery. -/
  | posting
  | delivering (d : Delivery)
  | done

/-! ## Operations -/

/-- A submitted command with its threads. -/
structure Operation where
  command : Fido.Command
  finished : Bool
  status : Status
  /-- Whether the callback was not started yet. -/
  callback : Bool
  worker : WorkerStage
  watchdog : WatchdogStage

namespace Operation

/-- An operation that is not in the register yet. -/
def new (c : Fido.Command) : Operation := ⟨c, false, .created, true, .absent, .absent⟩

/-- The operation with a settled outcome. -/
def finish (o : Operation) : Operation := { o with finished := true }

/-- The operation in another status, unless its status is terminal. -/
def reach (status : Status) (o : Operation) : Operation :=
  if o.status.isTerminal then o else { o with status := status }

/-- The operation with another stage of its worker. -/
def work (stage : WorkerStage) (o : Operation) : Operation := { o with worker := stage }

/-- The operation with another stage of its watchdog. -/
def watch (stage : WatchdogStage) (o : Operation) : Operation := { o with watchdog := stage }

/-- What the handle of an operation with the given number shows of it. -/
def describe (generation : Nat) (o : Operation) : String :=
  "OperationHandle \x7b generation: " ++ toString generation ++ ", state: " ++ o.status.name ++ " \x7d"

end Operation

end SecurityKey.Background
