import SecurityKey.Credential.Attestation
import SecurityKey.Credential.Entity
import SecurityKey.Credential.PublicKey
import SecurityKey.Ctap.Message

/-!
# Requests and their answers

Making a credential, getting an assertion, and the subcommands around the PIN. Each request has a map form with
numeric keys; lists that are empty and parameters that are absent leave no entry.
-/

namespace SecurityKey.Ctap

open Cbor (Value Fields)
open Credential (Attestation Descriptor PublicKey RelyingParty User)

/-! ## Making a credential -/

/-- The request to make a credential. -/
structure MakeCredential where
  /-- The digest of what the relying party asks for. -/
  clientDataHash : Bytes.Sized 32
  rp : RelyingParty
  user : User
  /-- Acceptable algorithms, best first. -/
  algorithms : List Int
  /-- Credentials that must not exist on the authenticator. -/
  exclude : List Descriptor
  /-- Whether the authenticator shall store the credential itself. -/
  residentKey : Option Bool
  /-- The authentication code under a PIN token. -/
  pinAuth : Option Bytes
  /-- The PIN protocol of that code. -/
  pinProtocol : Option UInt8
  deriving DecidableEq

/-- The map form of the request. -/
def MakeCredential.toValue (r : MakeCredential) : Value :=
  .record [(1, some (.bytes r.clientDataHash.val)), (2, some r.rp.toValue), (3, some r.user.toValue),
    (4, some (.array (r.algorithms.map Credential.parameterValue))), (5, Descriptor.listValue? r.exclude),
    (7, r.residentKey.map fun rk => .textRecord [("rk", some (.bool rk))]), (8, r.pinAuth.map .bytes),
    (9, r.pinProtocol.map fun n => .ofNat n.toNat)]

/-- The encoded request. -/
def MakeCredential.toBytes (r : MakeCredential) : Bytes := request .makeCredential (some r.toValue)

/-! ## Getting an assertion -/

/-- The request to sign with a credential. -/
structure GetAssertion where
  rpId : String
  /-- The digest of what is signed. -/
  clientDataHash : Bytes.Sized 32
  /-- Credentials that may sign; with none, any may. -/
  allow : List Descriptor
  /-- The authentication code under a PIN token. -/
  pinAuth : Option Bytes
  /-- The PIN protocol of that code. -/
  pinProtocol : Option UInt8
  deriving DecidableEq

/-- The map form of the request. -/
def GetAssertion.toValue (r : GetAssertion) : Value :=
  .record [(1, some (.text r.rpId)), (2, some (.bytes r.clientDataHash.val)), (3, Descriptor.listValue? r.allow),
    (6, r.pinAuth.map .bytes), (7, r.pinProtocol.map fun n => .ofNat n.toNat)]

/-- The encoded request. -/
def GetAssertion.toBytes (r : GetAssertion) : Bytes := request .getAssertion (some r.toValue)

/-- A signature and what was signed. -/
structure Assertion where
  credential : Option Descriptor
  /-- The authenticator data that were signed. -/
  authData : Bytes
  signature : Bytes
  /-- The user the credential belongs to. -/
  user : Option User
  /-- How many credentials could have signed. -/
  count : Option UInt64
  deriving DecidableEq

/-- The assertion of a map form. The descriptor and the user are read before the required fields. -/
def Assertion.ofValue (v : Value) : Except Cbor.Error Assertion := do
  let fields ← Fields.ofValue v
  let credential ← (fields.get? 1).mapM Descriptor.ofValue
  let user ← (fields.get? 4).mapM User.ofValue
  return ⟨credential, ← fields.bytes 2, ← fields.bytes 3, user, ← fields.unsigned? 5⟩

/-- The map form of an assertion. -/
def Assertion.toValue (a : Assertion) : Value :=
  .record [(1, a.credential.map Descriptor.toValue), (2, some (.bytes a.authData)),
    (3, some (.bytes a.signature)), (4, a.user.map User.toValue), (5, a.count.map .unsigned)]

/-! ## PIN subcommands -/

/-- What a PIN request asks for. -/
inductive PinSubcommand
  | getRetries
  | getKeyAgreement
  | setPin
  | changePin
  | getPinToken
  deriving DecidableEq, Repr

/-- The byte of a subcommand. -/
def PinSubcommand.toByte : PinSubcommand → UInt8
  | getRetries => 1
  | getKeyAgreement => 2
  | setPin => 3
  | changePin => 4
  | getPinToken => 5

/-- The subcommand of a byte. -/
def PinSubcommand.ofByte? (b : UInt8) : Option PinSubcommand :=
  [getRetries, getKeyAgreement, setPin, changePin, getPinToken].find? (·.toByte = b)

/-- A request around the PIN. -/
structure ClientPin where
  pinProtocol : UInt8
  subcommand : PinSubcommand
  /-- The host's key for the session. -/
  keyAgreement : Option PublicKey
  /-- The authentication code of the encrypted PINs. -/
  pinAuth : Option Bytes
  newPinEnc : Option Bytes
  /-- The encrypted digest of the current PIN. -/
  pinHashEnc : Option Bytes
  deriving DecidableEq

namespace ClientPin

/-- How many attempts are left. -/
def getRetries (protocol : UInt8) : ClientPin := ⟨protocol, .getRetries, none, none, none, none⟩

/-- The authenticator's key for the session. -/
def getKeyAgreement (protocol : UInt8) : ClientPin := ⟨protocol, .getKeyAgreement, none, none, none, none⟩

/-- A first PIN. -/
def setPin (protocol : UInt8) (key : PublicKey) (newPinEnc pinAuth : Bytes) : ClientPin :=
  ⟨protocol, .setPin, some key, some pinAuth, some newPinEnc, none⟩

/-- Another PIN in place of the current one. -/
def changePin (protocol : UInt8) (key : PublicKey) (newPinEnc pinHashEnc pinAuth : Bytes) : ClientPin :=
  ⟨protocol, .changePin, some key, some pinAuth, some newPinEnc, some pinHashEnc⟩

/-- A token for the current PIN. -/
def getPinToken (protocol : UInt8) (key : PublicKey) (pinHashEnc : Bytes) : ClientPin :=
  ⟨protocol, .getPinToken, some key, none, none, some pinHashEnc⟩

/-- The map form of the request. -/
def toValue (r : ClientPin) : Value :=
  .record [(1, some (.ofNat r.pinProtocol.toNat)), (2, some (.ofNat r.subcommand.toByte.toNat)),
    (3, r.keyAgreement.map PublicKey.toValue), (4, r.pinAuth.map .bytes), (5, r.newPinEnc.map .bytes),
    (6, r.pinHashEnc.map .bytes)]

/-- The encoded request. -/
def toBytes (r : ClientPin) : Bytes := request .clientPin (some r.toValue)

end ClientPin

/-- The answer to a PIN request; each subcommand fills in its own part. -/
structure PinResponse where
  /-- The authenticator's key for the session. -/
  keyAgreement : Option PublicKey
  pinToken : Option Bytes
  retries : Option UInt64
  deriving DecidableEq

namespace PinResponse

/-- The answer without any part. -/
def empty : PinResponse := ⟨none, none, none⟩

/-- The answer of a map form, or of no item at all. -/
def ofValue? : Option Value → Except Cbor.Error PinResponse
  | none => .ok empty
  | some v => do
    let fields ← Fields.ofValue v
    let key ← (fields.get? 1).mapM PublicKey.ofValue
    return ⟨key, ← fields.bytes? 2, ← fields.unsigned? 3⟩

/-- The map form of the answer. -/
def toValue (r : PinResponse) : Value :=
  .record [(1, r.keyAgreement.map PublicKey.toValue), (2, r.pinToken.map .bytes), (3, r.retries.map .unsigned)]

end PinResponse

end SecurityKey.Ctap
