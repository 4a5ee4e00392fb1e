import SecurityKey.Card
import SecurityKey.Credential.AuthenticatorData
import SecurityKey.Ctap.Info
import SecurityKey.Ctap.Requests
import SecurityKey.Simulated.PinProtocol

/-!
# A simulated authenticator

An authenticator with one credential that speaks U2F, CTAP2 or both, and the first PIN protocol. All its keys are
fixed, so that two of them make the same credentials. `Authenticator.process` is its answer to a command.

A PIN is kept as text; `Authenticator.checkPinHash` compares its digest with a submitted one, and each mismatch uses
up an attempt. A command that needs a touch asks for it once, after all other checks.
-/

namespace SecurityKey.Simulated

open Cbor (Value Fields)
open Credential (Attestation AuthenticatorData Descriptor PublicKey User)
open Crypto (KeyPair)
open Ctap (Status)

/-! ## Fixed keys and names -/

/-- The key pair of a scalar, which has to be one of the group. -/
def keyPair (scalar : Nat) : KeyPair :=
  ⟨scalar, (Crypto.P256.mul scalar Crypto.P256.generator).getD Crypto.P256.generator⟩

/-- A key pair's public key for an algorithm. -/
def publicKey (algorithm : Credential.Algorithm) (k : KeyPair) : PublicKey :=
  ⟨algorithm, ⟨k.x, k.length_x⟩, ⟨k.y, k.length_y⟩⟩

/-- The key of the credential. -/
def credentialKey : PublicKey :=
  publicKey .es256 (keyPair 0x3333333333333333333333333333333333333333333333333333333333333333)

/-- The identifier of the credential. -/
def keyHandle : Bytes := List.replicate 48 0x4b

/-- The user the credential belongs to. -/
def userId : Bytes := List.replicate 8 0x75

/-- The model of the authenticator. -/
def aaguid : Bytes.Sized 16 := ⟨List.replicate 16 0xa7, by simp⟩

/-- Every signature. -/
def signature : Bytes := List.replicate 71 0x30

/-- The attestation certificate. -/
def certificate : Bytes := [0x30, 0x82, 0x01, 0x00] ++ List.replicate 256 0x5a

/-- The identifier of the FIDO application. -/
def applicationId : Bytes := [0xa0, 0x00, 0x00, 0x06, 0x47, 0x2f, 0x00, 0x01]

/-- How many attempts at the PIN there are. -/
def maxRetries : UInt8 := 8

/-! ## The authenticator -/

/-- An authenticator and what it remembers. -/
structure Authenticator where
  /-- Whether it speaks U2F. -/
  u2f : Bool
  ctap2 : Bool
  /-- Whether it finds its credential without being given the identifier. -/
  residentKeys : Bool
  pinSupported : Bool
  /-- The PIN, if one is set. -/
  pin : Option String
  /-- How many attempts at the PIN are left. -/
  retries : UInt8
  /-- How many touches the user is going to miss. -/
  presencePending : Nat
  /-- How many signatures were made. -/
  counter : UInt32
  /-- How often the user was asked for a touch. -/
  touches : Nat
  /-- The key pair for key agreements. -/
  agreementKey : KeyPair
  token : Bytes

namespace Authenticator

/-- The token of a new authenticator. -/
def firstToken : Bytes := (List.range 16).map .ofNat

/-- The token after a power cycle. -/
def secondToken : Bytes := (List.range 16).map fun n => .ofNat (n + 16)

/-- A new authenticator that speaks both protocols and has no PIN set. -/
def new : Authenticator where
  u2f := true
  ctap2 := true
  residentKeys := false
  pinSupported := true
  pin := none
  retries := maxRetries
  presencePending := 0
  counter := 0
  touches := 0
  agreementKey := keyPair 0x2222222222222222222222222222222222222222222222222222222222222222
  token := firstToken

/-- The authenticator with a token that it has not given to anybody. -/
def rotateToken (a : Authenticator) : Authenticator := { a with token := secondToken }

/-- A request for a touch; whether the user touched. -/
def touch {ε : Type} : Action Authenticator ε Bool := do
  let a ← get
  set { a with touches := a.touches + 1, presencePending := a.presencePending - 1 }
  return a.presencePending == 0

/-- What is signed: a header with the next value of the counter. -/
def assertionData {ε : Type} (rpIdHash : Bytes.Sized 32) (verified : Bool) : Action Authenticator ε Bytes := do
  let a ← get
  let counter := a.counter + 1
  set { a with counter }
  let flags := Credential.userPresentFlag ||| if verified then Credential.userVerifiedFlag else 0
  return AuthenticatorData.toBytes ⟨rpIdHash, flags, counter, none, none⟩

/-- The authenticator data of the credential. -/
def registrationData (rpIdHash : Bytes.Sized 32) (verified : Bool) : Bytes :=
  let flags := Credential.userPresentFlag ||| Credential.attestedFlag |||
    if verified then Credential.userVerifiedFlag else 0
  AuthenticatorData.toBytes
    ⟨rpIdHash, flags, 0, some ⟨aaguid, keyHandle, credentialKey.toValue.encode⟩, none⟩

/-- The digest of a relying party's id. -/
def rpIdHash (rpId : String) : Bytes.Sized 32 :=
  Crypto.Sha256.sized (Bytes.ofString rpId)

/-! ## U2F -/

/-- The answer to a registration. -/
def register (data : Bytes) : Action Authenticator Apdu.StatusWord Bytes := do
  if data.length ≠ 64 then throw .wrongLength
  if !(← touch) then throw .conditionsNotSatisfied
  return 0x05 :: credentialKey.toPoint ++ .ofNat keyHandle.length :: keyHandle ++ certificate ++ signature

/-- The answer to an authentication by a key handle. -/
def sign (app : Bytes) : Action Authenticator Apdu.StatusWord Bytes := do
  if !(← touch) then throw .conditionsNotSatisfied
  return (← assertionData (.ofPrefix 32 app) false).drop 32 ++ signature

/-- The answer to an authentication. Asking only whether a key handle is known never signs. -/
def authenticate (checkOnly : Bool) (data : Bytes) : Action Authenticator Apdu.StatusWord Bytes :=
  match data.drop 64 with
  | n :: handle =>
    if handle.length ≠ n.toNat then throw .wrongLength
    else if handle ≠ keyHandle then throw .wrongData
    else if checkOnly then throw .conditionsNotSatisfied
    else sign ((data.drop 32).take 32)
  | [] => throw .wrongLength

/-! ## PIN requests -/

/-- What the authenticator tells about itself. -/
def info (a : Authenticator) : Ctap.Info where
  versions := (if a.u2f then ["U2F_V2"] else []) ++ ["FIDO_2_0"]
  extensions := []
  aaguid := aaguid
  options :=
    { Ctap.Options.none with
      rk := some a.residentKeys
      clientPin := if a.pinSupported then some a.pin.isSome else none
      up := some true }
  maxMsgSize := some 1200
  pinProtocols := if a.pinSupported then [1] else []

/-- A parameter that has to be there. -/
def parameter {α : Type} : Option α → Action Authenticator Status α
  | some x => return x
  | none => throw .missingParameter

/-- What follows from parameters only when they make sense. -/
def valid {α : Type} : Option α → Action Authenticator Status α
  | some x => return x
  | none => throw .invalidParameter

/-- An optional byte string; one of another kind counts as absent. -/
def bytes? (fields : Fields) (key : Int) : Option Bytes := (fields.bytes? key).toOption.join

/-- An optional array; one of another kind counts as absent. -/
def array? (fields : Fields) (key : Int) : Option (List Value) := (fields.array? key).toOption.join

/-- The session key that follows from the host's public key. -/
def sessionKey (fields : Fields) : Action Authenticator Status Bytes := do
  let host ← parameter ((fields.get? 3).bind fun v => (PublicKey.ofValue v).toOption)
  valid (PinProtocol.sessionKey? (← get).agreementKey host)

/-- The check of a submitted digest against the PIN. -/
def checkPinHash (key pinHashEnc : Bytes) : Action Authenticator Status Unit := do
  let a ← get
  if a.retries = 0 then throw .pinBlocked
  match a.pin with
  | none => throw .pinNotSet
  | some pin =>
    let hash ← valid (PinProtocol.decrypt? key pinHashEnc)
    if hash = PinProtocol.digest pin then set { a with retries := maxRetries }
    else
      let retries := a.retries - 1
      set { a with retries }
      throw (if retries = 0 then .pinBlocked else .pinInvalid)

/-- The PIN of its encrypted form, up to the first zero byte. -/
def newPin (key newPinEnc : Bytes) : Except Status String :=
  match PinProtocol.decrypt? key newPinEnc with
  | none => .error .invalidParameter
  | some padded =>
    match Bytes.toString? (padded.takeWhile (· ≠ 0)) with
    | some pin => .ok pin
    | none => .error .pinPolicyViolation

/-- Another PIN in place of the one before, if there was one. -/
def storePin (key newPinEnc : Bytes) : Action Authenticator Status Unit := do
  let pin ← Action.ofExcept id (newPin key newPinEnc)
  modify fun a => { a with pin := some pin }

/-- The check of an authentication code. -/
def checkCode (key message code : Bytes) : Action Authenticator Status Unit :=
  if code = PinProtocol.code key message then return else throw .pinAuthInvalid

/-- The encrypted token. -/
def giveToken (fields : Fields) : Action Authenticator Status Ctap.PinResponse := do
  let key ← sessionKey fields
  checkPinHash key (← parameter (bytes? fields 6))
  let pinToken ← valid (PinProtocol.encrypt? key (← get).token)
  return { Ctap.PinResponse.empty with pinToken := some pinToken }

/-- A first PIN. -/
def setPin (fields : Fields) : Action Authenticator Status Ctap.PinResponse := do
  if (← get).pin.isSome then throw .pinAuthInvalid
  let key ← sessionKey fields
  let newPinEnc ← parameter (bytes? fields 5)
  checkCode key newPinEnc (← parameter (bytes? fields 4))
  storePin key newPinEnc
  return .empty

/-- Another PIN in place of the current one. -/
def changePin (fields : Fields) : Action Authenticator Status Ctap.PinResponse := do
  let key ← sessionKey fields
  let newPinEnc ← parameter (bytes? fields 5)
  let pinHashEnc ← parameter (bytes? fields 6)
  checkCode key (newPinEnc ++ pinHashEnc) (← parameter (bytes? fields 4))
  checkPinHash key pinHashEnc
  storePin key newPinEnc
  return .empty

/-- The answer to a PIN request. Of the number of the subcommand only the low byte counts. -/
def clientPin (parameters : Value) : Action Authenticator Status Ctap.PinResponse := do
  let a ← get
  if !a.pinSupported then throw .invalidCommand
  let fields ← Action.ofExcept (fun _ => .invalidCbor) (Fields.ofValue parameters)
  match (fields.unsigned 2).toOption.bind fun n => Ctap.PinSubcommand.ofByte? (.ofNat n.toNat) with
  | none => throw .invalidParameter
  | some .getRetries => return { Ctap.PinResponse.empty with retries := some a.retries.toUInt64 }
  | some .getKeyAgreement =>
    return { Ctap.PinResponse.empty with keyAgreement := some (publicKey .ecdhEsHkdf256 a.agreementKey) }
  | some .getPinToken => giveToken fields
  | some .setPin => setPin fields
  | some .changePin => changePin fields

/-! ## Credentials -/

/-- The check of a command's authentication code; whether the user was verified. -/
def checkPinAuth (pinAuth : Option Bytes) (clientDataHash : Bytes) : Action Authenticator Status Bool := do
  match pinAuth with
  | none => return false
  | some code =>
    let a ← get
    if a.pin.isNone then throw .pinNotSet
    checkCode a.token clientDataHash code
    return true

/-- Whether a list of descriptors has the credential. -/
def isListed (list : List Value) : Bool :=
  list.any fun v => (v.findText? "id").bind Value.toBytes? == some keyHandle

/-- The attestation of the credential. -/
def attestation (rpId : String) (verified : Bool) : Attestation :=
  ⟨"packed", registrationData (rpIdHash rpId) verified,
    .textRecord [("alg", some (.ofInt (-7))), ("sig", some (.bytes signature)),
      ("x5c", some (.array [.bytes certificate]))]⟩

/-- The answer to a request for a new credential. -/
def makeCredential (parameters : Value) : Action Authenticator Status Attestation := do
  let fields ← Action.ofExcept (fun _ => .invalidCbor) (Fields.ofValue parameters)
  let clientDataHash ← parameter (fields.bytes 1).toOption
  let rpId ← parameter (((fields.get? 2).bind (·.findText? "id")).bind Value.toText?)
  if isListed ((array? fields 5).getD []) then throw .credentialExcluded
  let pinAuth := bytes? fields 8
  if pinAuth.isNone && (← get).pin.isSome then throw .pinRequired
  let verified ← checkPinAuth pinAuth clientDataHash
  if !(← touch) then throw .userActionTimeout
  return attestation rpId verified

/-- The answer to a request for a signature. -/
def getAssertion (parameters : Value) : Action Authenticator Status Ctap.Assertion := do
  let fields ← Action.ofExcept (fun _ => .invalidCbor) (Fields.ofValue parameters)
  let rpId ← parameter (fields.text 1).toOption
  let clientDataHash ← parameter (fields.bytes 2).toOption
  let allow := (array? fields 3).getD []
  let a ← get
  if !(if allow.isEmpty then a.residentKeys else isListed allow) then throw .noCredentials
  let verified ← checkPinAuth (bytes? fields 6) clientDataHash
  if !(← touch) then throw .userActionTimeout
  let authData ← assertionData (rpIdHash rpId) verified
  return ⟨some (.ofId keyHandle), authData, signature,
    if allow.isEmpty then some ⟨userId, none, none, none⟩ else none, none⟩

/-! ## Commands -/

/-- The item that a CTAP2 command is answered with. -/
def execute (command : UInt8) (parameters : Option Value) : Action Authenticator Status Value := do
  match command, parameters with
  | 0x04, _ => return (← get).info.toValue
  | 0x06, some p => return (← clientPin p).toValue
  | 0x01, some p => return (← makeCredential p).toValue
  | 0x02, some p => return (← getAssertion p).toValue
  | _, _ => throw .invalidCommand

/-- The item that a CTAP2 message is answered with. -/
def ctap2Request (request : Bytes) : Action Authenticator Status Value := do
  match request with
  | [] => throw .invalidLength
  | command :: [] => execute command none
  | command :: body =>
    let parameters ← Action.ofExcept (fun _ => .invalidCbor) (Cbor.decode body)
    execute command (some parameters)

/-- The answer to a CTAP2 message; a refusal is a status byte alone. -/
def ctap2Message (request : Bytes) : Action Authenticator Apdu.StatusWord Bytes := do
  match ← Action.observe (ctap2Request request) with
  | .ok v => return Ctap.response (some v)
  | .error status => return [status.toByte]

/-- The data that a command is answered with. -/
def answer (c : Apdu.Command) : Action Authenticator Apdu.StatusWord Bytes := do
  let a ← get
  match c.cla, c.ins, a.ctap2, a.u2f with
  | 0x00, 0xa4, _, u2f =>
    if c.data ≠ applicationId then throw .fileNotFound
    return Bytes.ofString (if u2f then "U2F_V2" else "FIDO_2_0")
  | 0x80, 0x10, true, _ => ctap2Message c.data
  | 0x00, 0x01, _, true => register c.data
  | 0x00, 0x02, _, true => authenticate (c.p1 = 0x07) c.data
  | 0x00, 0x03, _, true => return Bytes.ofString "U2F_V2"
  | _, _, _, _ => throw .insNotSupported

/-- The answer to a command, and the authenticator after it. -/
def process (c : Apdu.Command) (a : Authenticator) : Apdu.Response × Authenticator :=
  match answer c a with
  | (.ok data, a) => (.ok data, a)
  | (.error sw, a) => (.status sw, a)

end Authenticator

end SecurityKey.Simulated
