import SecurityKey.Hid.Message

/-!
# Putting messages together

A reassembler listens to one channel. It is idle, or holds the part of a message that has arrived. Packets of other
channels pass it by while it is idle; anything unexpected ends the message and leaves it idle.
-/

namespace SecurityKey.Hid

/-- The part of a message that has arrived. -/
structure Partial where
  command : Command
  length : Nat
  data : Bytes
  /-- The number of the next packet. -/
  next : UInt8
  deriving DecidableEq

/-- A listener on one channel. -/
structure Reassembler where
  channel : UInt32
  pending : Option Partial
  deriving DecidableEq

namespace Reassembler

/-- The listener that has heard nothing. -/
def idle (channel : UInt32) : Reassembler := ⟨channel, none⟩

/-- Whether no message is under way. -/
def isIdle (r : Reassembler) : Bool := r.pending.isNone

/-- The listener without the message under way. -/
def reset (r : Reassembler) : Reassembler := { r with pending := none }

/-- What is known of a message once another packet was added: the message, or the part to wait with. -/
def settle (channel : UInt32) (p : Partial) : Option Message × Option Partial :=
  if p.length ≤ p.data.length then (some ⟨channel, p.command, p.data⟩, none) else (none, some p)

/-- The first packet of a message. Packets of other channels are passed over. -/
def start (channel : UInt32) (packet : Packet) : Except Link.Error (Option Message × Option Partial) :=
  if packet.channel ≠ channel then .ok (none, none)
  else match packet with
    | .continuation _ number _ => .error (.invalidSequence 0 (.ofNat number))
    | .initial _ command length payload =>
      match Command.ofByte? (.ofNat command) with
      | none => .error .invalidCommand
      | some command =>
        if maxMessageSize < length.toNat then .error .messageTooLarge
        else .ok (settle channel ⟨command, length.toNat, payload.val.take length.toNat, 0⟩)

/-- A later packet of the message under way. -/
def resume (channel : UInt32) (p : Partial) (packet : Packet) :
    Except Link.Error (Option Message × Option Partial) :=
  if packet.channel ≠ channel then .error (.invalidChannel channel packet.channel)
  else match packet with
    | .initial .. => .error .fragmentationError
    | .continuation _ number payload =>
      let number := UInt8.ofNat number
      if number ≠ p.next then .error (.invalidSequence p.next number)
      else .ok (settle channel
        { p with data := p.data ++ payload.val.take (p.length - p.data.length), next := p.next + 1 })

/-- One packet heard: perhaps a whole message, and the listener after it. -/
def feed (r : Reassembler) (packet : Packet) : Except Link.Error (Option Message) × Reassembler :=
  let heard := match r.pending with
    | none => start r.channel packet
    | some p => resume r.channel p packet
  match heard with
  | .ok (message, pending) => (.ok message, ⟨r.channel, pending⟩)
  | .error e => (.error e, r.reset)

/-- The first message that packets make up, if they make up one. -/
def firstMessage (r : Reassembler) : List Packet → Except Link.Error Message
  | [] => .error .fragmentationError
  | p :: rest =>
    match r.feed p with
    | (.ok (some m), _) => .ok m
    | (.ok none, r) => r.firstMessage rest
    | (.error e, _) => .error e

end Reassembler

end SecurityKey.Hid
