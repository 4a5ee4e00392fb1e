import SecurityKey.Fido.Credential
import SecurityKey.Fido.Pin

/-!
# What relying parties ask for

Commands to create a credential, to sign with one, and to ask an authenticator about itself, independent of the
protocol the authenticator speaks.
-/

namespace SecurityKey.Fido

open SecurityKey.Credential

/-- What a relying party wants of a new credential. -/
structure Creation where
  /-- The digest of the client data. -/
  clientDataHash : Bytes.Sized 32
  rp : RelyingParty
  user : User
  /-- Acceptable algorithms, best first. -/
  algorithms : List Int
  /-- Credentials that must not exist on the authenticator. -/
  exclude : List Descriptor
  /-- Whether the authenticator shall store the credential. -/
  residentKey : Bool
  /-- Whether the user has to be verified. -/
  userVerification : UserVerification
  /-- How much of the attestation to convey. -/
  conveyance : Conveyance
  /-- The PIN, if the user gave it. -/
  pin : Option Pin
  /-- Whether the last attempt at the PIN may be used. -/
  lastAttemptOk : Bool

/-- A new credential with the usual wishes. -/
def Creation.standard (clientDataHash : Bytes.Sized 32) (rp : RelyingParty) (user : User) : Creation :=
  ⟨clientDataHash, rp, user, [Algorithm.es256.id], [], false, .preferred, .none, none, false⟩

/-- What a relying party wants signed. -/
structure Signing where
  rpId : String
  /-- The digest of the client data. -/
  clientDataHash : Bytes.Sized 32
  /-- Credentials that may sign; with none, any may. -/
  allow : List Descriptor
  /-- Whether the user has to be verified. -/
  userVerification : UserVerification
  /-- The PIN, if the user gave it. -/
  pin : Option Pin
  /-- Whether the last attempt at the PIN may be used. -/
  lastAttemptOk : Bool

/-- A signature with the usual wishes. -/
def Signing.standard (rpId : String) (clientDataHash : Bytes.Sized 32) : Signing :=
  ⟨rpId, clientDataHash, [], .preferred, none, false⟩

/-- A command of a relying party. -/
inductive Command
  | create (c : Creation)
  | sign (s : Signing)
  | info

/-- The kinds of commands. -/
inductive CommandKind
  | makeCredential
  | getAssertion
  | getInfo
  deriving DecidableEq, Repr

/-- The kind of a command. -/
def Command.kind : Command → CommandKind
  | create _ => .makeCredential
  | sign _ => .getAssertion
  | info => .getInfo

/-- The name of a kind. -/
def CommandKind.name : CommandKind → String
  | makeCredential => "MakeCredential"
  | getAssertion => "GetAssertion"
  | getInfo => "GetInfo"

/-- The answer to a command. -/
inductive Answer
  | credential (c : PublicKeyCredential)
  /-- What the authenticator told about itself. -/
  | info (i : Ctap.Info)

end SecurityKey.Fido
