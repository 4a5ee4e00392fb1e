import SecurityKey.Fido.Command

/-!
# Authenticators that speak CTAP2

`Ctap2.pinAuth` decides how a command is authorised: not at all, by the token of the session, or by a new token for
the PIN. A token that the authenticator turned down is forgotten.
-/

namespace SecurityKey.Fido

open SecurityKey.Credential

namespace Ctap2

variable {σ : Type} (card : Card σ) (config : Config)

/-- What the authenticator tells about itself now. -/
def getInfo : Action (Session σ) Error Ctap.Info := do
  let body ← Session.ctap2RequestBody card config (Ctap.request .getInfo none)
  Action.ofExcept Error.ofCbor (Ctap.Info.ofValue body)

/-! ## Authorisation -/

/-- Why a required verification of the user is impossible, if it is. -/
def checkRequired (supported set : Bool) (pin : Option Pin) : Except Error Unit :=
  if !supported then .error (.unsupported "user verification requires clientPin")
  else if !set then .error .pinNotSet
  else if pin.isNone then .error .pinRequired
  else .ok ()

/-- The authentication code of a command under the token of a PIN, or none where the command goes without. -/
def pinAuth (v : UserVerification) (pin : Option Pin) (lastAttemptOk : Bool) (clientDataHash : Bytes) :
    Action (Session σ) Error (Option Bytes) := do
  if v = .discouraged then return none
  let s ← get
  match s.pinToken with
  | some token => return some (token.authenticate clientDataHash)
  | none =>
    let supported := (s.info.map Ctap.Info.supportsClientPin).getD false
    let set := (s.info.map Ctap.Info.isPinSet).getD false
    if v = .required then Action.ofExcept id (checkRequired supported set pin)
    match pin with
    | some pin =>
      if supported && set then
        let token ← Pin.getPinToken card config none pin lastAttemptOk
        modify fun s => { s with pinToken := some token }
        return some (token.authenticate clientDataHash)
      else return none
    | none => return none

/-- Whether an error means that the token of the session is of no more use. -/
def endsPinSession : Error → Bool
  | .ctap .pinAuthInvalid => true
  | .securityStatus _ => true
  | .blocked => true
  | .pinRequired => true
  | .cancelled => true
  | _ => false

/-- A request that may carry an authentication code. -/
def privilegedRequest (request : Bytes) : Action (Session σ) Error Cbor.Value := do
  match ← Action.observe (Session.ctap2RequestBody card config request) with
  | .ok body => return body
  | .error e =>
    if endsPinSession e then modify Session.clearPinToken
    throw e

/-- The PIN protocol of an authentication code. -/
def protocolOf (auth : Option Bytes) : Option UInt8 := auth.map fun _ => Pin.protocol

/-! ## Commands -/

/-- The request for a new credential. -/
def creationRequest (c : Creation) (auth : Option Bytes) : Ctap.MakeCredential :=
  ⟨c.clientDataHash, c.rp, c.user, c.algorithms, c.exclude, if c.residentKey then some true else none, auth,
    protocolOf auth⟩

/-- The request for a signature. -/
def signingRequest (s : Signing) (auth : Option Bytes) : Ctap.GetAssertion :=
  ⟨s.rpId, s.clientDataHash, s.allow, auth, protocolOf auth⟩

/-- A new credential. -/
def makeCredential (c : Creation) : Action (Session σ) Error PublicKeyCredential := do
  let auth ← pinAuth card config c.userVerification c.pin c.lastAttemptOk c.clientDataHash.val
  let body ← privilegedRequest card config (creationRequest c auth).toBytes
  let a ← Action.ofExcept Error.ofCbor (Attestation.ofValue body)
  Action.ofExcept id (PublicKeyCredential.ofAttestation a c.conveyance)

/-- Whether the authenticator stores credentials itself. -/
def storesCredentials (s : Session σ) : Bool := (s.info.bind (·.options.rk)).getD false

/-- A signature by one of the allowed credentials, or by any that the authenticator stores. -/
def getAssertion (s : Signing) : Action (Session σ) Error PublicKeyCredential := do
  if s.allow.isEmpty && !storesCredentials (← get) then
    throw (.unsupported "authenticator does not support resident keys")
  let auth ← pinAuth card config s.userVerification s.pin s.lastAttemptOk s.clientDataHash.val
  let body ← privilegedRequest card config (signingRequest s auth).toBytes
  let a ← Action.ofExcept Error.ofCbor (Ctap.Assertion.ofValue body)
  Action.ofExcept id
    (PublicKeyCredential.ofAssertion s.allow a.credential a.authData a.signature (a.user.map (·.id)))

end Ctap2

end SecurityKey.Fido
