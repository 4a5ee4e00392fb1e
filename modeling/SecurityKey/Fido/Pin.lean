import SecurityKey.Ctap.Requests
import SecurityKey.Fido.Session
import SecurityKey.Pin

/-!
# The PIN of an authenticator

- `checkPolicy` says which PINs can be set;
- `getPinToken` exchanges the PIN for a token, `setPin` and `changePin` set it; all of them agree on a session key
  first. A PIN is submitted only after the authenticator said that attempts are left, and the last attempt is used
  only with the caller's consent.
-/

namespace SecurityKey.Fido

open Credential (PublicKey)
open Crypto (KeyPair PinToken)

namespace Pin

variable {σ : Type} (card : Card σ) (config : Config)

/-- Whether a PIN may be set: four characters at least, 63 bytes at most. -/
def checkPolicy (pin : Pin) : Except Error Unit :=
  if pin.text.length < 4 then .error .pinTooShort
  else if 63 < pin.bytes.length then .error .pinTooLong
  else .ok ()

/-- The number of the PIN protocol in requests. -/
def protocol : UInt8 := .ofNat Crypto.PinProtocol.version

/-- One PIN request and its answer. -/
def request (r : Ctap.ClientPin) : Action (Session σ) Error Ctap.PinResponse := do
  let body ← Session.ctap2Request card config r.toBytes
  Action.ofExcept Error.ofCbor (Ctap.PinResponse.ofValue? body)

/-! ## Key agreement -/

/-- What both sides know after a key agreement. -/
structure Agreement where
  hostKey : PublicKey
  sessionKey : Bytes

/-- The public key of a host's key pair. -/
def hostKey (k : KeyPair) : PublicKey :=
  ⟨.ecdhEsHkdf256, ⟨k.x, k.length_x⟩, ⟨k.y, k.length_y⟩⟩

/-- The agreement of the host's key pair with the authenticator's public key. -/
def agreementWith (k : KeyPair) (device : PublicKey) : Except Crypto.Error Agreement := do
  let shared ← k.agreeCoordinates device.x.val device.y.val
  return ⟨hostKey k, Crypto.PinProtocol.sessionKey shared⟩

/-- Where the host's key pair comes from: given secret bytes, or a new one. -/
def hostPair (secret : Option Bytes) : Action (Session σ) Error KeyPair := do
  match secret with
  | some b => Action.ofExcept Error.ofCrypto (KeyPair.ofBytes b)
  | none =>
    let s ← get
    set { s with keysMade := s.keysMade + 1 }
    return config.freshKey s.keysMade

/-- A key agreement with the authenticator. -/
def agree (secret : Option Bytes) : Action (Session σ) Error Agreement := do
  let r ← request card config (.getKeyAgreement protocol)
  match r.keyAgreement with
  | none => throw (.protocol "getKeyAgreement response without key")
  | some device =>
    let k ← hostPair config secret
    Action.ofExcept Error.ofCrypto (agreementWith k device)

/-! ## Attempts -/

/-- How many attempts are left, at most 255. -/
def getRetries : Action (Session σ) Error UInt8 := do
  let r ← request card config (.getRetries protocol)
  match r.retries with
  | none => throw (.protocol "getRetries response without retries")
  | some n => return .ofNat (min n.toNat 255)

/-- How many attempts are left, when there is one to use. -/
def checkRetries (lastAttemptOk : Bool) : Action (Session σ) Error UInt8 := do
  let n ← getRetries card config
  if n = 0 then throw .blocked
  else if n = 1 && !lastAttemptOk then throw .lastAttempt
  else return n

/-- The error of a submission, given how many attempts there were before it. -/
def wrongPinError (before : UInt8) : Error → Error
  | .securityStatus none => if before ≤ 1 then .blocked else .securityStatus (some (before - 1))
  | .ctap .pinPolicyViolation => .pinTooShort
  | e => e

/-- A PIN request that submits a PIN. -/
def submit (before : UInt8) (r : Ctap.ClientPin) : Action (Session σ) Error Ctap.PinResponse :=
  (request card config r).adapt (wrongPinError before)

/-! ## Operations -/

/-- The token that the authenticator gives for the PIN. -/
def getPinToken (secret : Option Bytes) (pin : Pin) (lastAttemptOk : Bool) :
    Action (Session σ) Error PinToken := do
  let retries ← checkRetries card config lastAttemptOk
  let a ← agree card config secret
  let pinHashEnc ← Action.ofExcept Error.ofCrypto (Crypto.PinProtocol.pinHashEnc a.sessionKey pin.text)
  let r ← submit card config retries (.getPinToken protocol a.hostKey pinHashEnc)
  match r.pinToken with
  | none => throw (.protocol "getPINToken response without token")
  | some encrypted => Action.ofExcept Error.ofCrypto (PinToken.decrypt a.sessionKey encrypted)

/-- A first PIN set. -/
def setPin (secret : Option Bytes) (newPin : Pin) : Action (Session σ) Error Unit := do
  Action.ofExcept id (checkPolicy newPin)
  let a ← agree card config secret
  let newPinEnc ← Action.ofExcept Error.ofCrypto (Crypto.PinProtocol.newPinEnc a.sessionKey newPin.text)
  let pinAuth := Crypto.PinProtocol.authenticate a.sessionKey newPinEnc
  let _ ← request card config (.setPin protocol a.hostKey newPinEnc pinAuth)

/-- Another PIN in place of the current one. The token of the session is forgotten before the request is sent. -/
def changePin (secret : Option Bytes) (current newPin : Pin) (lastAttemptOk : Bool) :
    Action (Session σ) Error Unit := do
  Action.ofExcept id (checkPolicy newPin)
  let retries ← checkRetries card config lastAttemptOk
  let a ← agree card config secret
  let newPinEnc ← Action.ofExcept Error.ofCrypto (Crypto.PinProtocol.newPinEnc a.sessionKey newPin.text)
  let pinHashEnc ← Action.ofExcept Error.ofCrypto (Crypto.PinProtocol.pinHashEnc a.sessionKey current.text)
  let pinAuth := Crypto.PinProtocol.authenticate a.sessionKey (newPinEnc ++ pinHashEnc)
  modify Session.clearPinToken
  let _ ← submit card config retries (.changePin protocol a.hostKey newPinEnc pinHashEnc pinAuth)

end Pin

end SecurityKey.Fido
