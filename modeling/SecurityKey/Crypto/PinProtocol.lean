import SecurityKey.Crypto.Aes
import SecurityKey.Crypto.Hmac
import SecurityKey.Crypto.KeyPair

/-!
# The first PIN protocol

What host and authenticator compute from a shared secret: the session key, the encrypted forms of a PIN and the
authentication code of a message.

- a PIN is submitted as the encrypted front half of its digest (`pinHashEnc`);
- a new PIN is sent encrypted in 64 bytes, filled up with zeros (`newPinEnc`);
- a message is authenticated by the front half of a keyed digest (`authenticate`).
-/

namespace SecurityKey.Crypto.PinProtocol

/-- The number of the protocol on the wire. -/
def version : Nat := 1

/-- The key of a session, from the coordinate both sides share. -/
def sessionKey (sharedX : Bytes) : Bytes := Sha256.digest sharedX

/-- Data that are a whole number of blocks. -/
def wholeBlocks (data : Bytes) : Except Error Bytes :=
  if data.length % 16 = 0 then .ok data else .error (.invalidBlockLength data.length)

/-- Whole blocks encrypted under a session key. -/
def encrypt (key data : Bytes) : Except Error Bytes := (Aes.encrypt key) <$> wholeBlocks data

/-- Whole blocks decrypted under a session key. -/
def decrypt (key data : Bytes) : Except Error Bytes := (Aes.decrypt key) <$> wholeBlocks data

/-- The authentication code of a message: sixteen bytes. -/
def authenticate (key message : Bytes) : Bytes := (Hmac.authenticate key message).take 16

/-- Whether a code is the one of the message. -/
def verify (key message expected : Bytes) : Bool := authenticate key message == expected

/-- The digest by which a PIN is stored and compared: sixteen bytes. -/
def hashPin (pin : String) : Bytes := (Sha256.digest (Bytes.ofString pin)).take 16

/-- How many bytes a padded PIN has. -/
def paddedLength : Nat := 64

/-- A PIN filled up with zeros; at least one zero has to fit. -/
def padPin (pin : String) : Except Error Bytes :=
  let b := Bytes.ofString pin
  if b.length < paddedLength then .ok (b ++ List.replicate (paddedLength - b.length) 0)
  else .error (.pinTooLong b.length)

/-- The encrypted digest of a PIN. -/
def pinHashEnc (key : Bytes) (pin : String) : Except Error Bytes := encrypt key (hashPin pin)

/-- The encrypted padded form of a PIN. -/
def newPinEnc (key : Bytes) (pin : String) : Except Error Bytes := do encrypt key (← padPin pin)

@[simp]
theorem length_authenticate (key message : Bytes) : (authenticate key message).length = 16 := by
  simp [authenticate]

@[simp]
theorem length_hashPin (pin : String) : (hashPin pin).length = 16 := by
  simp [hashPin]

end SecurityKey.Crypto.PinProtocol
