import SecurityKey.Link.Error

/-!
# CTAPHID packets

A packet is 64 bytes: a channel, a byte that tells its kind, and a payload. An initialization packet announces a
command and the length of the whole message; a continuation packet carries its number. `Packet.ofBytes` and
`Packet.toBytes` pass between packets and their bytes.
-/

namespace SecurityKey.Hid

/-- How much payload an initialization packet carries. -/
def initialSize : Nat := 57

/-- How much payload a continuation packet carries. -/
def continuationSize : Nat := 59

/-- The channel everybody listens to. -/
def broadcastChannel : UInt32 := 0xffffffff

/-! ## Commands -/

/-- The commands of the link. -/
inductive Command
  | ping
  | msg
  | lock
  | init
  | wink
  | cbor
  | cancel
  | keepalive
  | error
  deriving DecidableEq, Repr

/-- The number of a command. -/
def Command.toByte : Command → UInt8
  | ping => 0x01
  | msg => 0x03
  | lock => 0x04
  | init => 0x06
  | wink => 0x08
  | cbor => 0x10
  | cancel => 0x11
  | keepalive => 0x3b
  | error => 0x3f

/-- The command of a number; the bit that marks initialization packets does not count. -/
def Command.ofByte? (b : UInt8) : Option Command :=
  [ping, msg, lock, init, wink, cbor, cancel, keepalive, error].find? (·.toByte = b &&& 0x7f)

/-- The errors a device reports. -/
inductive ErrorCode
  | invalidCmd
  | invalidPar
  | invalidLen
  | invalidSeq
  | msgTimeout
  | channelBusy
  | lockRequired
  | invalidChannel
  | other
  deriving DecidableEq, Repr

/-- The number of an error. -/
def ErrorCode.toByte : ErrorCode → UInt8
  | invalidCmd => 0x01
  | invalidPar => 0x02
  | invalidLen => 0x03
  | invalidSeq => 0x04
  | msgTimeout => 0x05
  | channelBusy => 0x06
  | lockRequired => 0x0a
  | invalidChannel => 0x0b
  | other => 0x7f

/-- The error of a number. -/
def ErrorCode.ofByte? (b : UInt8) : Option ErrorCode :=
  [invalidCmd, invalidPar, invalidLen, invalidSeq, msgTimeout, channelBusy, lockRequired, invalidChannel,
    other].find? (·.toByte = b)

/-- The error that the payload of an error message reports. -/
def reportedError (payload : Bytes) : Link.Error :=
  match payload with
  | [] => .malformedResponse "empty CTAPHID_ERROR payload"
  | b :: _ =>
    match ErrorCode.ofByte? b with
    | some .msgTimeout => .timeout
    | some .channelBusy => .channelBusy
    | _ => .device b

/-- What a device does while it keeps a message alive. -/
inductive Keepalive
  | processing
  | upNeeded
  | unknown (code : UInt8)
  deriving DecidableEq, Repr

/-- The meaning of a keepalive number. -/
def Keepalive.ofByte (b : UInt8) : Keepalive :=
  if b = 1 then processing else if b = 2 then upNeeded else unknown b

/-! ## Packets -/

/-- A packet. -/
inductive Packet
  /-- The first packet of a message. -/
  | initial (channel : UInt32) (command : Fin 128) (length : UInt16) (payload : Bytes.Sized initialSize)
  /-- A later packet of a message. -/
  | continuation (channel : UInt32) (number : Fin 128) (payload : Bytes.Sized continuationSize)
  deriving DecidableEq

namespace Packet

/-- The channel of a packet. -/
def channel : Packet → UInt32
  | initial channel .. => channel
  | continuation channel .. => channel

/-- Whether a packet is the first of its message. -/
def isInitial : Packet → Bool
  | initial .. => true
  | continuation .. => false

/-- The command number of a first packet. -/
def commandByte? : Packet → Option UInt8
  | initial _ command .. => some (.ofNat command)
  | continuation .. => none

/-- The command of a first packet, if there is one of its number. -/
def command? (p : Packet) : Option Command := p.commandByte?.bind Command.ofByte?

/-- The announced length of the message. -/
def length? : Packet → Option UInt16
  | initial _ _ length _ => some length
  | continuation .. => none

/-- The number of a later packet. -/
def number? : Packet → Option UInt8
  | initial .. => none
  | continuation _ number _ => some (.ofNat number)

/-- The payload of a packet. -/
def payload : Packet → Bytes
  | initial _ _ _ payload => payload.val
  | continuation _ _ payload => payload.val

/-- The bytes of a packet. -/
def toBytes : Packet → Bytes
  | initial channel command length payload =>
    Bytes.ofNat 4 channel.toNat ++ [UInt8.ofNat (128 + command)] ++ Bytes.ofNat 2 length.toNat ++ payload.val
  | continuation channel number payload =>
    Bytes.ofNat 4 channel.toNat ++ [UInt8.ofNat number] ++ payload.val

/-- The packet of 64 bytes. -/
def ofSized (b : Bytes.Sized 64) : Packet :=
  let channel := UInt32.ofNat (Bytes.toNat (b.val.take 4))
  let kind := (b.val.getD 4 0).toNat
  if 128 ≤ kind then
    initial channel (Fin.ofNat 128 kind) (.ofNat (Bytes.toNat ((b.val.drop 5).take 2)))
      ⟨b.val.drop 7, by simp [b.property, initialSize]⟩
  else continuation channel (Fin.ofNat 128 kind) ⟨b.val.drop 5, by simp [b.property, continuationSize]⟩

/-- The packet of a byte string, which has to have 64 bytes. -/
def ofBytes (b : Bytes) : Except Link.Error Packet :=
  match Bytes.sized? 64 b with
  | some b => .ok (ofSized b)
  | none => .error .invalidPacket

/-- The first packet of a message, with as much of the given data as it holds. -/
def first (channel : UInt32) (command : Command) (length : UInt16) (data : Bytes) : Packet :=
  initial channel (Fin.ofNat 128 command.toByte.toNat) length (.ofPrefix initialSize data)

/-- A later packet, with as much of the given data as it holds. -/
def next (channel : UInt32) (number : Nat) (data : Bytes) : Packet :=
  continuation channel (Fin.ofNat 128 number) (.ofPrefix continuationSize data)

/-- A packet that reports an error. -/
def errorReport (channel : UInt32) (code : ErrorCode) : Packet := first channel .error 1 [code.toByte]

/-- A packet that keeps a message alive. -/
def keepalive (channel : UInt32) (status : UInt8) : Packet := first channel .keepalive 1 [status]

end Packet

end SecurityKey.Hid
