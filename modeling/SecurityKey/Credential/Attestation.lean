import SecurityKey.Cbor.Encode
import SecurityKey.Cbor.Fields

/-!
# Attestation objects

Authenticator data with a statement about their origin. The object has two map forms: authenticators send it with
numeric keys (`Attestation.toValue`, `Attestation.ofValue`), relying parties receive it with text keys
(`Attestation.toBytes`).
-/

namespace SecurityKey.Credential

open Cbor (Value Fields)

/-- Authenticator data and an attestation statement in some format. -/
structure Attestation where
  format : String
  authData : Bytes
  /-- The statement. -/
  statement : Value

namespace Attestation

/-- Authenticator data without any statement. -/
def none (authData : Bytes) : Attestation := ⟨"none", authData, .map []⟩

/-- The statement of a first-generation authenticator: its certificate and a signature. -/
def fidoU2f (authData certificate signature : Bytes) : Attestation :=
  ⟨"fido-u2f", authData,
    .textRecord [("sig", some (.bytes signature)), ("x5c", some (.array [.bytes certificate]))]⟩

/-- The object an authenticator sent. -/
def ofValue (v : Value) : Except Cbor.Error Attestation := do
  let fields ← Fields.ofValue v
  return ⟨← fields.text 1, ← fields.bytes 2, ← fields.get 3⟩

/-- The object as an authenticator sends it. -/
def toValue (a : Attestation) : Value :=
  .record [(1, some (.text a.format)), (2, some (.bytes a.authData)), (3, some a.statement)]

/-- The object as relying parties receive it. -/
def toBytes (a : Attestation) : Bytes :=
  (Value.textRecord [("fmt", some (.text a.format)), ("attStmt", some a.statement),
    ("authData", some (.bytes a.authData))]).encode

end Attestation

end SecurityKey.Credential
