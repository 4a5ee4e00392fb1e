import SecurityKey.Credential.PublicKey
import SecurityKey.Fido.Command

/-!
# Authenticators that speak U2F

Commands are carried out by registration and authentication APDUs. U2F cannot verify users. Key handles of more than
255 bytes cannot be sent and are passed over.

- `RegisterResponse.parse` takes the answer to a registration apart;
- `U2f.makeCredential` probes the excluded key handles first and registers only when none is known;
- `U2f.getAssertion` tries the allowed key handles in order.
-/

namespace SecurityKey.Fido

open SecurityKey.Credential

/-! ## Registration answers -/

/-- The parts of the answer to a registration. -/
structure RegisterResponse where
  publicKey : Bytes
  keyHandle : Bytes
  certificate : Bytes
  signature : Bytes
  deriving DecidableEq

/-- How long the DER sequence at the front of the data is, header included. -/
def derLength (data : Bytes) : Except Error Nat :=
  let truncated := .error (.protocol "attestation certificate header truncated")
  match data with
  | 0x30 :: rest =>
    match rest with
    | [] => truncated
    | 0x81 :: rest =>
      match rest with
      | n :: _ => .ok (3 + n.toNat)
      | [] => truncated
    | 0x82 :: rest =>
      match rest with
      | hi :: lo :: _ => .ok (4 + Bytes.toNat [hi, lo])
      | _ => truncated
    | n :: _ =>
      if n < 0x80 then .ok (2 + n.toNat)
      else .error (.protocol ("unsupported DER length form " ++ Bytes.toHex [n]))
  | _ => .error (.protocol "attestation certificate is not a DER sequence")

namespace RegisterResponse

/-- The first `n` bytes and the rest, or the complaint that the named part is cut short. -/
def take (part : String) (n : Nat) (data : Bytes) : Except Error (Bytes × Bytes) :=
  match Bytes.split? n data with
  | some r => .ok r
  | none => .error (.protocol ("register response truncated in " ++ part))

/-- The parts of an answer. -/
def parse (data : Bytes) : Except Error RegisterResponse :=
  match data with
  | [] => .error (.protocol "empty register response")
  | id :: rest =>
    if id ≠ 0x05 then .error (.protocol ("register response starts with " ++ Bytes.toHex [id]))
    else do
      let (front, rest) ← take "public key" 66 rest
      let (keyHandle, rest) ← take "key handle" (Bytes.toNat (front.drop 65)) rest
      let (certificate, signature) ← take "certificate" (← derLength rest) rest
      if 70 ≤ signature.length ∧ signature.length ≤ 73 then
        return ⟨front.take 65, keyHandle, certificate, signature⟩
      else .error (.protocol ("register signature has unexpected length " ++ toString signature.length))

end RegisterResponse

/-! ## Commands -/

namespace U2f

/-- The digest of a relying party's id. -/
def appId (rpId : String) : Bytes.Sized 32 :=
  ⟨Crypto.Sha256.digest (Bytes.ofString rpId), Crypto.Sha256.length_digest _⟩

/-- The registration of a new key. -/
def registerApdu (clientDataHash app : Bytes.Sized 32) : Apdu.Command :=
  ((Apdu.Command.header 0x00 0x01 0x03 0x00).withData (clientDataHash.val ++ app.val)).withNe 65536

/-- The authentication by a key handle, or only the question whether it is known; a handle that is too long cannot be
sent. -/
def authenticateApdu? (checkOnly : Bool) (clientDataHash app : Bytes.Sized 32) (keyHandle : Bytes) :
    Option Apdu.Command :=
  if keyHandle.length ≤ 255 then
    let data := clientDataHash.val ++ app.val ++ UInt8.ofNat keyHandle.length :: keyHandle
    some (((Apdu.Command.header 0x00 0x02 (if checkOnly then 0x07 else 0x03) 0x00).withData data).withNe 65536)
  else none

/-- The refusal of commands that require a verified user. -/
def rejectUserVerification (v : UserVerification) : Except Error Unit :=
  if v = .required then .error (.unsupported "CTAP1 authenticators cannot verify the user") else .ok ()

variable {σ : Type} (card : Card σ) (config : Config)

/-- The check that none of the listed credentials is known to the authenticator. -/
def checkExcluded (clientDataHash app : Bytes.Sized 32) : List Descriptor → Action (Session σ) Error Unit
  | [] => return
  | d :: rest =>
    match authenticateApdu? true clientDataHash app d.id with
    | none => checkExcluded clientDataHash app rest
    | some c => do
      let r ← Session.transmit card config c
      if r.sw = .conditionsNotSatisfied then throw (.ctap .credentialExcluded)
      else if r.sw = .wrongData then checkExcluded clientDataHash app rest
      else throw (.ofFidoStatus r.sw)

/-- The authenticator data of a registered key. -/
def attestedData (app : Bytes.Sized 32) (keyHandle : Bytes) (key : PublicKey) : AuthenticatorData :=
  ⟨app, userPresentFlag ||| attestedFlag, 0, some ⟨.zero 16, keyHandle, key.toValue.encode⟩, none⟩

/-- The credential of a registration. -/
def registered (app : Bytes.Sized 32) (conveyance : Conveyance) (r : RegisterResponse) :
    Except Error PublicKeyCredential := do
  let key ← (PublicKey.ofPoint .es256 r.publicKey).mapError .ofCbor
  let data := attestedData app r.keyHandle key
  PublicKeyCredential.ofAttestation (.fidoU2f data.toBytes r.certificate r.signature) conveyance

/-- A new credential. -/
def makeCredential (c : Creation) : Action (Session σ) Error PublicKeyCredential := do
  Action.ofExcept id (rejectUserVerification c.userVerification)
  let app := appId c.rp.id
  checkExcluded card config c.clientDataHash app c.exclude
  let r ← Session.communicate card config (registerApdu c.clientDataHash app)
  let parts ← Action.ofExcept id (RegisterResponse.parse r.data)
  Action.ofExcept id (registered app c.conveyance parts)

/-- The credential of an authentication: the answer holds the end of the authenticator data and a signature. -/
def authenticated (app : Bytes.Sized 32) (d : Descriptor) (data : Bytes) : Except Error PublicKeyCredential :=
  if data.length ≤ 5 then .error (.protocol "authenticate response truncated")
  else PublicKeyCredential.ofAssertion [d] none (app.val ++ data.take 5) (data.drop 5) none

/-- The credential of the first key handle that the authenticator knows. -/
def tryHandles (clientDataHash app : Bytes.Sized 32) :
    List Descriptor → Action (Session σ) Error PublicKeyCredential
  | [] => throw .noCredentials
  | d :: rest =>
    match authenticateApdu? false clientDataHash app d.id with
    | none => tryHandles clientDataHash app rest
    | some c => do
      let r ← Session.transmit card config c
      if r.sw = .wrongData then tryHandles clientDataHash app rest
      else if r.isSuccess then Action.ofExcept id (authenticated app d r.data)
      else throw (.ofFidoStatus r.sw)

/-- A signature by one of the allowed credentials. -/
def getAssertion (s : Signing) : Action (Session σ) Error PublicKeyCredential := do
  Action.ofExcept id (rejectUserVerification s.userVerification)
  if s.allow.isEmpty then throw (.unsupported "CTAP1 has no resident keys")
  tryHandles card config s.clientDataHash (appId s.rpId) s.allow

end U2f

end SecurityKey.Fido
