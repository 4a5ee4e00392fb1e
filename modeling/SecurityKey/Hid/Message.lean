import SecurityKey.Chunks
import SecurityKey.Hid.Packet

/-!
# CTAPHID messages

A message is cut into one initialization packet and up to 128 continuation packets (`Message.toPackets`). The
handshake is answered by a message whose data are an `Allocation`.
-/

namespace SecurityKey.Hid

/-- The most data a message can carry. -/
def maxMessageSize : Nat := initialSize + 128 * continuationSize

/-- A whole message. -/
structure Message where
  channel : UInt32
  command : Command
  data : Bytes
  deriving DecidableEq

namespace Message

/-- The continuation packets of pieces of data, numbered from `number`. -/
def continuations (channel : UInt32) (number : Nat) : List Bytes → List Packet
  | [] => []
  | piece :: rest => .next channel number piece :: continuations channel (number + 1) rest

/-- The packets of a message that is not too long. -/
def toPackets (m : Message) : Except Link.Error (List Packet) :=
  if maxMessageSize < m.data.length then .error .messageTooLarge
  else .ok (.first m.channel m.command (.ofNat m.data.length) (m.data.take initialSize) ::
    continuations m.channel 0 (chunks continuationSize (m.data.drop initialSize)))

end Message

/-! ## The answer to a handshake -/

/-- What a device allocates and tells in a handshake. -/
structure Allocation where
  /-- The nonce of the host, repeated. -/
  nonce : Bytes.Sized 8
  channel : UInt32
  /-- The version of the link protocol. -/
  protocol : UInt8
  /-- The major version of the device. -/
  major : UInt8
  /-- The minor version of the device. -/
  minor : UInt8
  /-- The build number of the device. -/
  build : UInt8
  /-- What the device can do, a bit each. -/
  capabilities : UInt8
  deriving DecidableEq

namespace Allocation

/-- Whether a capability bit is set. -/
def has (a : Allocation) (bit : UInt8) : Bool := a.capabilities &&& bit != 0

/-- The device can draw attention to itself. -/
def canWink (a : Allocation) : Bool := a.has 0x01

/-- The device can reserve itself for one channel. -/
def canLock (a : Allocation) : Bool := a.has 0x02

/-- The device takes CTAP2 messages. -/
def takesCbor (a : Allocation) : Bool := a.has 0x04

/-- The device does not take APDUs. -/
def lacksMsg (a : Allocation) : Bool := a.has 0x08

/-- The allocation in the data of a message. The data are measured before the nonce is compared; what follows the
first 17 bytes does not count. -/
def parse (nonce : Bytes.Sized 8) (data : Bytes) : Except Link.Error Allocation :=
  match Bytes.sized? 8 (data.take 8), data.drop 8 with
  | some echoed, c0 :: c1 :: c2 :: c3 :: protocol :: major :: minor :: build :: capabilities :: _ =>
    if echoed = nonce then
      .ok ⟨echoed, .ofNat (Bytes.toNat [c0, c1, c2, c3]), protocol, major, minor, build, capabilities⟩
    else .error .nonceMismatch
  | _, _ =>
    .error (.malformedResponse ("INIT response of " ++ toString data.length ++ " bytes, expected 17"))

/-- The data of the message that tells an allocation. -/
def toBytes (a : Allocation) : Bytes :=
  a.nonce.val ++ Bytes.ofNat 4 a.channel.toNat ++ [a.protocol, a.major, a.minor, a.build, a.capabilities]

end Allocation

end SecurityKey.Hid
