import SecurityKey.Bytes

/-!
# Errors between host and device

What can go wrong below the protocols: with packets and messages on a HID link, with APDUs, and with the device
itself.
-/

namespace SecurityKey.Link

/-- Why a packet, a message or an APDU did not get through. -/
inductive Error
  /-- A packet is not of the expected kind. -/
  | invalidPacket
  /-- A packet belongs to another channel. -/
  | invalidChannel (expected actual : UInt32)
  /-- A message carries an unknown or unexpected command. -/
  | invalidCommand
  /-- A packet is out of order. -/
  | invalidSequence (expected actual : UInt8)
  /-- A message does not fit its packets. -/
  | messageTooLarge
  /-- The packets of a message do not fit together. -/
  | fragmentationError
  /-- A handshake was answered for somebody else. -/
  | nonceMismatch
  | malformedResponse (reason : String)
  /-- Data exceed what an APDU can announce. -/
  | dataTooLong (length max : Nat)
  /-- The card refused a link of a chain of APDUs. -/
  | chainingFailed (index total : Nat) (sw : UInt16)
  | timeout
  | channelBusy
  /-- The device reported an error of its own. -/
  | device (code : UInt8)
  /-- A packet could not be written. -/
  | enqueue (reason : String)
  | notConnected
  | deviceNotFound
  /-- The operating system reported an error. -/
  | ioError (reason : String)
  deriving DecidableEq, Repr

namespace Error

/-- The text of an error. -/
def message : Error → String
  | invalidPacket => "Invalid packet format"
  | invalidChannel expected actual =>
    "Invalid channel ID: expected " ++ Bytes.toHex (Bytes.ofNat 4 expected.toNat) ++ ", got " ++
      Bytes.toHex (Bytes.ofNat 4 actual.toNat)
  | invalidCommand => "Invalid command"
  | invalidSequence expected actual =>
    "Invalid sequence number: expected " ++ toString expected ++ ", got " ++ toString actual
  | messageTooLarge => "Message too large"
  | fragmentationError => "Message fragmentation error"
  | nonceMismatch => "Channel initialization nonce mismatch"
  | malformedResponse reason => "Malformed response: " ++ reason
  | dataTooLong length max =>
    "APDU data too long: " ++ toString length ++ " bytes (max " ++ toString max ++ ")"
  | chainingFailed index total sw =>
    "Failed to chain APDU " ++ toString index ++ "/" ++ toString total ++ ", status word " ++
      Bytes.toHex (Bytes.ofNat 2 sw.toNat)
  | timeout => "Timeout waiting for message"
  | channelBusy => "Channel busy"
  | device code => "Device reported CTAPHID error 0x" ++ Bytes.toHex [code]
  | enqueue reason => "Failed to enqueue data: " ++ reason
  | notConnected => "Transport not connected"
  | deviceNotFound => "Device not found"
  | ioError reason => "I/O error: " ++ reason

/-- Whether another attempt may succeed where this one failed. -/
def isRetryable : Error → Bool
  | timeout => true
  | channelBusy => true
  | _ => false

end Error

end SecurityKey.Link
