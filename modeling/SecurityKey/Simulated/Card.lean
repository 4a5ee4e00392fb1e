import SecurityKey.Simulated.Authenticator

/-!
# A simulated card

A card that answers from a script, from a simulated authenticator, or from both, and that keeps a record of what was
done to it.

A touch of the authenticator may be out of reach: the user has not touched yet, or the sensor is broken. Then the
command does not come back (`Interruption`), and neither does anything that is asked of the card afterwards.
-/

namespace SecurityKey.Simulated

/-- An answer of a script. -/
inductive Reply
  | bytes (b : Bytes)
  /-- An error, possibly with the loss of the connection. -/
  | failure (e : Link.Error) (drop : Bool)
  | authenticator

/-- What was done to a card. -/
inductive Deed
  | connect
  | release
  | command (c : Apdu.Command)

/-- What happens at a touch. -/
inductive Sensor
  | attended
  /-- The user touches that many times and then no more. -/
  | allowed (touches : Nat)
  /-- The sensor breaks down, with the given words if it has any. -/
  | broken (words : Option String)

/-- Why a command does not come back. -/
inductive Interruption
  /-- The user has not touched yet. -/
  | waiting
  | breakdown (words : Option String)

/-- A card with a script. -/
structure Card where
  connected : Bool
  /-- Whether it takes commands in extended form. -/
  extended : Bool
  /-- What becomes of the next attempts to connect; later ones succeed. -/
  connects : List (Option Link.Error)
  replies : List Reply
  /-- The authenticator that answers when the script is over. -/
  authenticator : Option Authenticator
  /-- What happens at a touch. -/
  sensor : Sensor
  /-- Why the last command did not come back. -/
  interruption : Option Interruption
  /-- What was done to it, the latest first. -/
  record : List Deed

namespace Card

/-- The card after it was done something to. -/
def note (d : Deed) (c : Card) : Card := { c with record := d :: c.record }

/-- What was done to a card, in order. -/
def deeds (c : Card) : List Deed := c.record.reverse

/-- The interruption at the given number of touches. -/
def Sensor.interruption? (touches : Nat) : Sensor → Option Interruption
  | .attended => none
  | .allowed n => if n < touches then some .waiting else none
  | .broken words => some (.breakdown words)

/-- A connection, as the script has it. -/
def connect : Action Card Link.Error Unit := do
  modify (note .connect)
  let c ← get
  match c.connects with
  | [] => set { c with connected := true }
  | none :: rest => set { c with connects := rest, connected := true }
  | some e :: rest =>
    set { c with connects := rest }
    throw e

/-- The authenticator's answer. A touch out of reach leaves the authenticator as it was. -/
def ask (command : Apdu.Command) : Action Card Link.Error Apdu.Response := do
  let c ← get
  match c.authenticator with
  | none => throw .notConnected
  | some a =>
    let (r, a') := a.process command
    let interruption := if a.touches < a'.touches then Sensor.interruption? a'.touches c.sensor else none
    match interruption with
    | some i =>
      set { c with interruption := some i }
      throw (.ioError "interrupted")
    | none =>
      set { c with authenticator := some a' }
      return r

/-- One command, answered from the script or by the authenticator. -/
def transceive (command : Apdu.Command) : Action Card Link.Error Apdu.Response := do
  if !(← get).connected then throw .notConnected
  modify (note (.command command))
  let c ← get
  match c.replies with
  | [] => ask command
  | .authenticator :: rest =>
    set { c with replies := rest }
    ask command
  | .bytes b :: rest =>
    set { c with replies := rest }
    Action.ofExcept id (Apdu.Response.ofBytes b)
  | .failure e drop :: rest =>
    set { c with replies := rest, connected := c.connected && !drop }
    throw e

/-- An action that does nothing on a card that was interrupted. -/
def unlessInterrupted {α : Type} (a : Action Card Link.Error α) : Action Card Link.Error α := do
  if (← get).interruption.isSome then throw (.ioError "interrupted") else a

/-- The end of the connection. -/
def release (c : Card) : Card :=
  if c.interruption.isSome then c else { note .release c with connected := false }

/-- The card as others see it. -/
def card : SecurityKey.Card Card where
  connect := unlessInterrupted connect
  transceive command := unlessInterrupted (transceive command)
  release := release
  isConnected := Card.connected
  supportsExtended := Card.extended

end Card

end SecurityKey.Simulated
