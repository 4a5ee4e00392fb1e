import SecurityKey.Cbor.Decode

/-!
# Authenticator data

A header of 37 bytes (the hash of the relying party's id, flags, a signature counter), then, as the flags say, the
attested credential and extensions. The credential's public key is one encoded item, whose end the item itself tells.

`AuthenticatorData.parse` reads the bytes and `AuthenticatorData.toBytes` writes them.
-/

namespace SecurityKey.Credential

/-! ## Flags -/

/-- The user was present. -/
def userPresentFlag : UInt8 := 0x01

/-- The user was verified. -/
def userVerifiedFlag : UInt8 := 0x04

/-- An attested credential follows the header. -/
def attestedFlag : UInt8 := 0x40

/-- Extensions come last. -/
def extensionsFlag : UInt8 := 0x80

/-! ## The data -/

/-- The credential an authenticator attests. -/
structure AttestedCredential where
  /-- The model of the authenticator. -/
  aaguid : Bytes.Sized 16
  id : Bytes
  publicKey : Bytes
  deriving DecidableEq

/-- What an authenticator signs. -/
structure AuthenticatorData where
  /-- The digest of the relying party's id. -/
  rpIdHash : Bytes.Sized 32
  flags : UInt8
  signCount : UInt32
  credential : Option AttestedCredential
  extensions : Option Bytes
  deriving DecidableEq

namespace AuthenticatorData

/-- Whether a flag is set. -/
def hasFlag (flags flag : UInt8) : Bool := flags &&& flag != 0

/-- The next `n` bytes and the rest, or the complaint that the named part is cut short. -/
def take (part : String) (n : Nat) (input : Bytes) : Except Cbor.Error (Bytes.Sized n × Bytes) :=
  if h : n ≤ input.length then .ok (⟨input.take n, by simp [h]⟩, input.drop n)
  else .error (.truncated part)

/-- The attested credential at the front of the input, and the rest. -/
def parseCredential (input : Bytes) : Except Cbor.Error (AttestedCredential × Bytes) := do
  let (front, input) ← take "attested credential data" 18 input
  let (id, input) ← take "credential id" (Bytes.toNat (front.val.drop 16)) input
  let (_, keyLength) ← Cbor.decodePrefix input
  return (⟨⟨front.val.take 16, by simp [front.property]⟩, id.val, input.take keyLength⟩, input.drop keyLength)

/-- Authenticator data from their bytes. Bytes behind the last part are refused unless the flags announce
extensions, which then are all of the rest. -/
def parse (input : Bytes) : Except Cbor.Error AuthenticatorData := do
  let (header, input) ← take "header" 37 input
  let rpIdHash : Bytes.Sized 32 := ⟨header.val.take 32, by simp [header.property]⟩
  let flags := header.val.getD 32 0
  let signCount := UInt32.ofNat (Bytes.toNat (header.val.drop 33))
  let (credential, input) ←
    if hasFlag flags attestedFlag then do
      let (credential, input) ← parseCredential input
      pure (some credential, input)
    else pure (none, input)
  if hasFlag flags extensionsFlag then return ⟨rpIdHash, flags, signCount, credential, some input⟩
  else if input.isEmpty then return ⟨rpIdHash, flags, signCount, credential, none⟩
  else .error (.trailingBytes input.length)

/-- The bytes of an attested credential. -/
def credentialBytes (c : AttestedCredential) : Bytes :=
  c.aaguid.val ++ Bytes.ofNat 2 c.id.length ++ c.id ++ c.publicKey

/-- The bytes of authenticator data. -/
def toBytes (a : AuthenticatorData) : Bytes :=
  a.rpIdHash.val ++ [a.flags] ++ Bytes.ofNat 4 a.signCount.toNat ++
    (a.credential.map credentialBytes).getD [] ++ a.extensions.getD []

/-- Whether the user was present. -/
def userPresent (a : AuthenticatorData) : Bool := hasFlag a.flags userPresentFlag

/-- Whether the user was verified. -/
def userVerified (a : AuthenticatorData) : Bool := hasFlag a.flags userVerifiedFlag

/-- The same data with the model of the authenticator blanked out. -/
def zeroAaguid (a : AuthenticatorData) : AuthenticatorData :=
  { a with credential := a.credential.map fun c => { c with aaguid := .zero 16 } }

end AuthenticatorData

end SecurityKey.Credential
