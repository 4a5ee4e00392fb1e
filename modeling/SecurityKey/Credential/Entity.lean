import SecurityKey.Cbor.Error
import SecurityKey.Cbor.Value

/-!
# The parties of a credential

Relying parties, users and the descriptors that name credentials, with their map forms. In the map of a user or a
descriptor only the identifier is required; other fields of an unexpected kind count as absent.
-/

namespace SecurityKey.Credential

open Cbor (Value)

/-- The only type of credential there is. -/
def publicKeyType : String := "public-key"

/-! ## Relying parties -/

/-- A relying party. -/
structure RelyingParty where
  id : String
  name : Option String
  icon : Option String
  deriving DecidableEq, Repr

/-- The map form of a relying party. -/
def RelyingParty.toValue (r : RelyingParty) : Value :=
  .textRecord [("id", some (.text r.id)), ("name", r.name.map .text), ("icon", r.icon.map .text)]

/-! ## Users -/

/-- The user an account belongs to. -/
structure User where
  id : Bytes
  name : Option String
  displayName : Option String
  icon : Option String
  deriving DecidableEq, Repr

/-- The map form of a user. -/
def User.toValue (u : User) : Value :=
  .textRecord [("id", some (.bytes u.id)), ("name", u.name.map .text),
    ("displayName", u.displayName.map .text), ("icon", u.icon.map .text)]

/-- The user of a map form. -/
def User.ofValue (v : Value) : Except Cbor.Error User :=
  match (v.findText? "id").bind Value.toBytes? with
  | none => .error (.missingField "user.id")
  | some id =>
    let text (key : String) := (v.findText? key).bind Value.toText?
    .ok ⟨id, text "name", text "displayName", text "icon"⟩

/-! ## Descriptors -/

/-- The name of a credential. -/
structure Descriptor where
  id : Bytes
  /-- How the authenticator may be reached. -/
  transports : Option (List String)
  deriving DecidableEq, Repr

/-- The descriptor of an identifier alone. -/
def Descriptor.ofId (id : Bytes) : Descriptor := ⟨id, none⟩

/-- The map form of a descriptor. -/
def Descriptor.toValue (d : Descriptor) : Value :=
  .textRecord [("id", some (.bytes d.id)), ("type", some (.text publicKeyType)),
    ("transports", d.transports.map .texts)]

/-- The descriptor of a map form. -/
def Descriptor.ofValue (v : Value) : Except Cbor.Error Descriptor :=
  match (v.findText? "id").bind Value.toBytes? with
  | none => .error (.missingField "credential.id")
  | some id =>
    .ok ⟨id, ((v.findText? "transports").bind Value.toArray?).map fun items => items.filterMap Value.toText?⟩

/-- The array of descriptors. -/
def Descriptor.listValue (ds : List Descriptor) : Value :=
  .array (ds.map toValue)

/-- The array of descriptors, absent when there are none. -/
def Descriptor.listValue? (ds : List Descriptor) : Option Value :=
  if ds.isEmpty then none else some (listValue ds)

/-! ## Wishes of a relying party -/

/-- The map form of an acceptable algorithm, given by its number. -/
def parameterValue (algorithm : Int) : Value :=
  .textRecord [("alg", some (.ofInt algorithm)), ("type", some (.text publicKeyType))]

/-- How much of an attestation the relying party receives. -/
inductive Conveyance
  | none
  | indirect
  | direct
  deriving DecidableEq, Repr

/-- Whether the authenticator has to know who uses it. -/
inductive UserVerification
  | required
  | preferred
  | discouraged
  deriving DecidableEq, Repr

end SecurityKey.Credential
