import SecurityKey.Credential.Attestation
import SecurityKey.Credential.AuthenticatorData
import SecurityKey.Credential.Entity
import SecurityKey.Error

/-!
# Credentials for relying parties

`PublicKeyCredential.ofAttestation` and `PublicKeyCredential.ofAssertion` make the credential that a relying party
receives from what an authenticator sent. Unless the relying party asked for the attestation itself, the statement
and the model of the authenticator are removed.
-/

namespace SecurityKey.Fido

open SecurityKey.Credential

/-- What an authenticator sent for a credential. -/
inductive CredentialResponse
  /-- The attestation of a new credential. -/
  | attestation (a : Attestation)
  | assertion (authData signature : Bytes) (userHandle : Option Bytes)

/-- A credential as a relying party receives it. -/
structure PublicKeyCredential where
  rawId : Bytes
  response : CredentialResponse

namespace PublicKeyCredential

/-- An attestation without statement and without the model of the authenticator. -/
def anonymize (a : Attestation) : Except Cbor.Error Attestation := do
  let data ← AuthenticatorData.parse a.authData
  return .none data.zeroAaguid.toBytes

/-- The attestation that a relying party receives. -/
def convey (a : Attestation) : Conveyance → Except Cbor.Error Attestation
  | .none => anonymize a
  | .indirect => anonymize a
  | .direct => .ok a

/-- The identifier of an attested credential. -/
def attestedId (authData : Bytes) : Except Error Bytes :=
  match AuthenticatorData.parse authData with
  | .error e => .error (.ofCbor e)
  | .ok data =>
    match data.credential with
    | some c => .ok c.id
    | none => .error (.protocol "registration without attested credential data")

/-- The credential of an attestation. -/
def ofAttestation (a : Attestation) (conveyance : Conveyance) : Except Error PublicKeyCredential := do
  let a ← (convey a conveyance).mapError .ofCbor
  return ⟨← attestedId a.authData, .attestation a⟩

/-- The credential of an assertion. Where only one credential was allowed it is that one, otherwise the authenticator
has to say which. -/
def ofAssertion (allow : List Descriptor) (returned : Option Descriptor) (authData signature : Bytes)
    (userHandle : Option Bytes) : Except Error PublicKeyCredential :=
  match allow, returned with
  | [only], _ => .ok ⟨only.id, .assertion authData signature userHandle⟩
  | _, some d => .ok ⟨d.id, .assertion authData signature userHandle⟩
  | _, none => .error (.protocol "authenticator did not return the credential")

end PublicKeyCredential

end SecurityKey.Fido
