import SecurityKey.Hid.Link

/-!
# A simulated HID device

A device that puts the packets of the host together and answers each whole message from a script. `HidDevice.write`
is what it does with a packet. A handshake may be answered without the script, and messages beyond the end of the
script may be sent back as they are.
-/

namespace SecurityKey.Simulated

open Hid (Command Event Message Packet Reassembler)

/-- A part of the answer to a message. -/
inductive Item
  | echo
  | gap
  | failure (e : Link.Error)
  | packet (p : Packet)
  /-- The answer to a handshake: the data of the message with some bits of the first byte turned over, a channel and
  whatever comes behind it. -/
  | allocation (flip : UInt8) (channel : UInt32) (tail : Bytes)
  /-- A message, on the channel it answers where it names no other, sent so many times. -/
  | message (command : Command) (data : Bytes) (channel : Option UInt32) (times : Nat)

/-- The usual answer to a handshake. -/
def Item.usualAllocation : Item := .allocation 0 0x12345678 [0x02, 0x01, 0x02, 0x03, 0x05]

/-- The packets of a message, as the host reads them. -/
def packetEvents (m : Message) : List Event :=
  match m.toPackets with
  | .ok packets => packets.map .packet
  | .error _ => []

/-- What an item lets the host read in answer to a message. -/
def Item.events (m : Message) : Item → List Event
  | .echo => packetEvents m
  | .gap => [.quiet 0]
  | .failure e => [.failure e]
  | .packet p => [.packet p]
  | .allocation flip channel tail =>
    let nonce := match m.data with
      | [] => []
      | b :: rest => (b ^^^ flip) :: rest
    packetEvents ⟨m.channel, .init, nonce ++ Bytes.ofNat 4 channel.toNat ++ tail⟩
  | .message command data channel times =>
    (List.replicate times (packetEvents ⟨channel.getD m.channel, command, data⟩)).flatten

/-- A device with a script. -/
structure HidDevice where
  /-- Whether handshakes are answered without the script. -/
  greets : Bool
  /-- Whether messages are sent back once the script is over. -/
  echoes : Bool
  /-- The answers to the next messages. -/
  turns : List (List Item)
  /-- What becomes of the next packets; later ones are taken. -/
  refusals : List (Option Link.Error)
  /-- How many milliseconds the next packets take; later ones take none. -/
  delays : List Nat
  /-- How many packets were taken. -/
  taken : Nat
  listener : Option Reassembler
  received : List Message

namespace HidDevice

/-- The answer to a message, and the device after it. -/
def answer (m : Message) (d : HidDevice) : List Event × HidDevice :=
  let d := { d with received := d.received ++ [m] }
  if m.command = .init ∧ d.greets then (Item.usualAllocation.events m, d)
  else match d.turns with
    | turn :: rest => (turn.flatMap (Item.events m), { d with turns := rest })
    | [] => (if d.echoes then packetEvents m else [], d)

/-- A packet heard: an initial one begins a new message. -/
def hear (p : Packet) (d : HidDevice) : List Event × HidDevice :=
  let listener := if p.isInitial then some (Reassembler.idle p.channel) else d.listener
  match listener.map fun r => Reassembler.feed r p with
  | some (.ok (some m), r) => answer m { d with listener := some r }
  | some (_, r) => ([], { d with listener := some r })
  | none => ([], d)

/-- What becomes of a packet. -/
def write : Hid.Device HidDevice := fun p d =>
  match d.refusals with
  | some e :: rest => ⟨.error e, 0, [], { d with refusals := rest }⟩
  | refusals =>
    let (events, d') := hear p { d with refusals := refusals.tail, delays := d.delays.tail, taken := d.taken + 1 }
    ⟨.ok (), d.delays.headD 0, events, d'⟩

end HidDevice

end SecurityKey.Simulated
