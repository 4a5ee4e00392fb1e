import SecurityKey.Card
import SecurityKey.Hid.Reassembler

/-!
# The link to a HID device

A device is a state machine that takes packets. Each packet it takes may put events into the inbox of the host: a
packet to read, a pause, or a read that fails. An empty inbox means silence. Time is counted in milliseconds and
passes while packets are written and during pauses.

- `Link.handshake` allocates a channel; whatever goes wrong leaves the link closed;
- `Link.transact` sends a message and reads the answer. Timeouts and a busy channel are tried again up to the number
  of attempts; errors that show host and device out of step make the channel stale, and a stale channel is replaced by
  a new handshake before the next message.
-/

namespace SecurityKey.Hid

/-! ## Devices -/

/-- What the next read brings. -/
inductive Event
  | packet (p : Packet)
  /-- Nothing, after so many milliseconds. -/
  | quiet (milliseconds : Nat)
  | failure (e : Link.Error)
  deriving DecidableEq

/-- What becomes of one packet. -/
structure Written (δ : Type) where
  result : Except Link.Error Unit
  /-- How many milliseconds it took. -/
  elapsed : Nat
  /-- What the device lets the host read on account of it. -/
  events : List Event
  device : δ

/-- A device over a state of its own: what it does with a packet. -/
abbrev Device (δ : Type) := Packet → δ → Written δ

/-! ## Links -/

/-- The limits of a link, in milliseconds, and its source of nonces. -/
structure Config where
  /-- How long a handshake may take. -/
  initTimeout : Nat
  /-- How long a read may take. -/
  readTimeout : Nat
  /-- How long the packets of a message may take to write. -/
  writeTimeout : Nat
  /-- How often a message is tried. -/
  maxAttempts : Nat
  /-- The nonce of each handshake. -/
  nonce : Nat → Bytes.Sized 8

/-- The usual limits. -/
def Config.standard (nonce : Nat → Bytes.Sized 8) : Config := ⟨850, 2000, 1000, 3, nonce⟩

/-- The limits with another number of attempts, at least one. -/
def Config.withMaxAttempts (c : Config) (n : Nat) : Config := { c with maxAttempts := max 1 n }

/-- What the host knows about its channel. -/
inductive Channel
  | closed
  /-- There was one, but host and device are out of step. -/
  | stale
  | allocated (a : Allocation)
  deriving DecidableEq

/-- The host's side of a link, together with the device. -/
structure Link (δ : Type) where
  device : δ
  /-- What the device let the host read and the host has not read yet. -/
  inbox : List Event
  channel : Channel
  /-- How many handshakes were begun. -/
  handshakes : Nat

namespace Link

variable {δ : Type}

/-- The link to a device before the first handshake. -/
def new (device : δ) : Link δ := ⟨device, [], .closed, 0⟩

/-- The allocation of an open channel. -/
def info? (l : Link δ) : Option Allocation :=
  match l.channel with
  | .allocated a => some a
  | _ => none

/-- Whether the link has not been closed. A stale channel still counts as open. -/
def isOpen (l : Link δ) : Bool := l.channel ≠ .closed

/-- The link without its channel. -/
def release (l : Link δ) : Link δ := { l with channel := .closed }

/-- A duration as text, in the largest unit that it fills. -/
def durationText (milliseconds : Nat) : String :=
  if milliseconds = 0 then "0ns"
  else if milliseconds < 1000 then toString milliseconds ++ "ms"
  else
    let fraction := (toString (1000 + milliseconds % 1000)).toList.drop 1
    let digits := (fraction.reverse.dropWhile (· = '0')).reverse
    toString (milliseconds / 1000) ++ (if digits.isEmpty then "" else "." ++ String.ofList digits) ++ "s"

/-- An error of a write as the link reports it. -/
def enqueueError : SecurityKey.Link.Error → SecurityKey.Link.Error
  | .enqueue reason => .enqueue reason
  | e => .enqueue e.message

variable (device : Device δ) (config : Config)

/-- The packets of a message written in order. Each has to be written before the time for the message is used up.
Only the whole milliseconds that writing took are counted, and the clock has moved on past them when it is read: the
time has passed when as many are counted as there are, not only when there are more. -/
def writePackets (total : Nat) : (written elapsed : Nat) → List Packet → Action (Link δ) SecurityKey.Link.Error Unit
  | _, _, [] => pure ()
  | written, elapsed, p :: rest => do
    if config.writeTimeout ≤ elapsed then
      throw (.enqueue ("wrote " ++ toString written ++ " of " ++ toString total ++ " packets within " ++
        durationText config.writeTimeout))
    let l ← get
    let w := device p l.device
    set { l with device := w.device, inbox := l.inbox ++ w.events }
    match w.result with
    | .error e => throw (enqueueError e)
    | .ok () => writePackets total (written + 1) (elapsed + w.elapsed) rest

/-- A message written to the device. -/
def send (m : Message) : Action (Link δ) SecurityKey.Link.Error Unit := do
  match m.toPackets with
  | .error e => throw e
  | .ok packets => writePackets device config packets.length 0 0 packets

/-! ## Handshakes -/

/-- The allocation that the events bring within the given time, and the events left unread. Messages other than the
answer to a handshake are passed over. -/
def readAllocation (nonce : Bytes.Sized 8) :
    (remaining : Nat) → Reassembler → List Event → Except SecurityKey.Link.Error Allocation × List Event
  | _, _, [] => (.error .timeout, [])
  | 0, _, events => (.error .timeout, events)
  | remaining, r, .quiet d :: rest => readAllocation nonce (remaining - d) r rest
  | _, _, .failure e :: rest => (.error e, rest)
  | remaining, r, .packet p :: rest =>
    match r.feed p with
    | (.error e, _) => (.error e, rest)
    | (.ok none, r) => readAllocation nonce remaining r rest
    | (.ok (some m), r) =>
      if m.command = .init then (Allocation.parse nonce m.data, rest)
      else readAllocation nonce remaining r rest

/-- A new channel. -/
def handshake : Action (Link δ) SecurityKey.Link.Error Allocation := do
  let l ← get
  let nonce := config.nonce l.handshakes
  set { l with channel := .closed, handshakes := l.handshakes + 1 }
  send device config ⟨broadcastChannel, .init, nonce.val⟩
  let l ← get
  let (answer, inbox) := readAllocation nonce config.initTimeout (.idle broadcastChannel) l.inbox
  match answer with
  | .error e =>
    set { l with inbox }
    throw e
  | .ok a =>
    set { l with inbox, channel := .allocated a }
    return a

/-! ## Messages -/

/-- The answer to a command that the events bring, and the events left unread. A pause is a timeout; keepalives are
passed over. -/
def readAnswer (command : Command) :
    Reassembler → List Event → Except SecurityKey.Link.Error Bytes × List Event
  | _, [] => (.error .timeout, [])
  | _, .quiet _ :: rest => (.error .timeout, rest)
  | _, .failure e :: rest => (.error e, rest)
  | r, .packet p :: rest =>
    match r.feed p with
    | (.error e, _) => (.error e, rest)
    | (.ok none, r) => readAnswer command r rest
    | (.ok (some m), r) =>
      if m.command = .keepalive then readAnswer command r rest
      else if m.command = .error then (.error (reportedError m.data), rest)
      else if m.command = command then (.ok m.data, rest)
      else (.error .invalidCommand, rest)

/-- One message and its answer on a channel. -/
def exchange (channel : UInt32) (command : Command) (payload : Bytes) :
    Action (Link δ) SecurityKey.Link.Error Bytes := do
  send device config ⟨channel, command, payload⟩
  let l ← get
  let (answer, inbox) := readAnswer command (.idle channel) l.inbox
  set { l with inbox }
  match answer with
  | .error e => throw e
  | .ok data => return data

/-- The channel to use: the allocated one, or a new one in place of a stale one. -/
def ensureChannel : Action (Link δ) SecurityKey.Link.Error UInt32 := do
  match (← get).channel with
  | .allocated a => return a.channel
  | .stale => return (← handshake device config).channel
  | .closed => throw .notConnected

/-- Whether an error shows that host and device are out of step. -/
def dropsChannel : SecurityKey.Link.Error → Bool
  | .invalidChannel .. => true
  | .invalidSequence .. => true
  | .invalidCommand => true
  | .fragmentationError => true
  | .messageTooLarge => true
  | .malformedResponse _ => true
  | .device 0x0b => true
  | _ => false

/-- The link after an error that is not tried again. -/
def afterError (e : SecurityKey.Link.Error) (l : Link δ) : Link δ :=
  match l.channel with
  | .allocated _ => if dropsChannel e then { l with channel := .stale } else l
  | _ => l

/-- One attempt at a message. -/
def attempt (command : Command) (payload : Bytes) : Action (Link δ) SecurityKey.Link.Error Bytes := do
  let channel ← ensureChannel device config
  exchange device config channel command payload

/-- One attempt at a message; where it fails for want of time or of a free channel, what comes next is `again`. -/
def attemptOr (again : Action (Link δ) SecurityKey.Link.Error Bytes) (command : Command) (payload : Bytes) :
    Action (Link δ) SecurityKey.Link.Error Bytes := do
  match ← Action.observe (attempt device config command payload) with
  | .ok data => return data
  | .error e =>
    if e.isRetryable then again
    else
      modify (afterError e)
      throw e

/-- A message, tried again up to `retries` times. -/
def transactWith (command : Command) (payload : Bytes) :
    (retries : Nat) → Action (Link δ) SecurityKey.Link.Error Bytes
  | 0 => attemptOr device config (throw .timeout) command payload
  | retries + 1 => attemptOr device config (transactWith command payload retries) command payload

/-- A message and its answer. -/
def transact (command : Command) (payload : Bytes) : Action (Link δ) SecurityKey.Link.Error Bytes :=
  transactWith device config command payload (config.maxAttempts - 1)

/-- Data that the device has to repeat. -/
def ping (data : Bytes) : Action (Link δ) SecurityKey.Link.Error Unit := do
  if (← transact device config .ping data) ≠ data then throw (.malformedResponse "PING echo mismatch")

/-- The request to draw attention. -/
def wink : Action (Link δ) SecurityKey.Link.Error Unit := do
  let _ ← transact device config .wink []

/-- The message that gives up what is under way on an open channel. -/
def cancel : Action (Link δ) SecurityKey.Link.Error Unit := do
  match (← get).channel with
  | .allocated a => send device config ⟨a.channel, .cancel, []⟩
  | _ => return

end Link

end SecurityKey.Hid
