import SecurityKey.Crypto.Sha256

/-!
# HMAC-SHA-256

A keyed digest: the message is hashed behind the key masked with one byte, and that digest behind the key masked
with another.
-/

namespace SecurityKey.Crypto.Hmac

/-- A key as long as a block: a longer one is hashed first, a shorter one is filled up with zeros. -/
def blockKey (key : Bytes) : Bytes :=
  let key := if key.length ≤ 64 then key else Sha256.digest key
  key ++ List.replicate (64 - key.length) 0

/-- The authentication code of a message. -/
def authenticate (key message : Bytes) : Bytes :=
  let masked (mask : UInt8) := (blockKey key).map (· ^^^ mask)
  Sha256.digest (masked 0x5c ++ Sha256.digest (masked 0x36 ++ message))

@[simp]
theorem length_authenticate (key message : Bytes) : (authenticate key message).length = 32 := by
  simp [authenticate]

end SecurityKey.Crypto.Hmac
