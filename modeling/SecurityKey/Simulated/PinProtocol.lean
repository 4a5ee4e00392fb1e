import SecurityKey.Credential.PublicKey
import SecurityKey.Crypto.Aes
import SecurityKey.Crypto.Hmac
import SecurityKey.Crypto.KeyPair

/-!
# The first PIN protocol of a simulated authenticator

What an authenticator computes, written down by the formulas of the protocol and not in terms of what a host computes:

- the session key is the digest of the coordinate of the shared point (`sessionKey?`);
- data are encrypted by AES-256 in chaining mode from a block of zeros: `C_i = E(P_i + C_(i-1))` (`encrypt?`) and
  `P_i = D(C_i) + C_(i-1)` (`decrypt?`);
- the code of a message is the front half of its keyed digest (`code`), and a PIN is compared by the front half of its
  digest (`digest`).
-/

namespace SecurityKey.Simulated.PinProtocol

open Credential (PublicKey)
open Crypto

/-- The first coordinate of the product of the own scalar and the host's point, which has to be on the curve. -/
def sharedX? (k : KeyPair) (host : PublicKey) : Option Bytes :=
  let p : P256.Point := ⟨host.x.val.toNat, host.y.val.toNat⟩
  if p.isOnCurve then (P256.mul k.scalar p).map fun q => Bytes.ofNat 32 q.x else none

/-- The key of a session with the owner of a public key. -/
def sessionKey? (k : KeyPair) (host : PublicKey) : Option Bytes := (sharedX? k host).map Sha256.digest

/-- What comes before the first encrypted block. -/
def zeros : Aes.Block := List.replicate 16 0

/-- Every block is added to the encrypted one before it and encrypted. -/
def encryptBlocks (keys blocks : List Aes.Block) : List Aes.Block :=
  (blocks.scanl (fun previous b => Aes.encryptBlock keys (Aes.add b previous)) zeros).tail

/-- Every block is decrypted and added to the encrypted one before it. -/
def decryptBlocks (keys blocks : List Aes.Block) : List Aes.Block :=
  List.zipWith Aes.add (blocks.map (Aes.decryptBlock keys)) (zeros :: blocks)

/-- Whole blocks encrypted under a session key. -/
def encrypt? (key data : Bytes) : Option Bytes :=
  if data.length % 16 = 0 then some (encryptBlocks (Aes.roundKeys key) (chunks 16 data)).flatten else none

/-- Whole blocks decrypted under a session key. -/
def decrypt? (key data : Bytes) : Option Bytes :=
  if data.length % 16 = 0 then some (decryptBlocks (Aes.roundKeys key) (chunks 16 data)).flatten else none

/-- The authentication code of a message. -/
def code (key message : Bytes) : Bytes := (Hmac.authenticate key message).take 16

/-- What a PIN is compared by. -/
def digest (pin : String) : Bytes := (Sha256.digest (Bytes.ofString pin)).take 16

end SecurityKey.Simulated.PinProtocol
