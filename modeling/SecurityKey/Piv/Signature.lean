import SecurityKey.Piv.Tlv

/-!
# Signature templates

To sign, a card is sent a template with an empty place for the answer and a challenge: the digest itself for keys on
curves, and the digest in a padded block of the modulus' length for RSA keys (`padBlock`). The signature comes back in
a template of the same kind.
-/

namespace SecurityKey.Piv

/-! ## Algorithms -/

/-- The kinds of keys. -/
inductive KeyAlgorithm
  | rsa1024
  | rsa2048
  | p256
  | p384
  deriving DecidableEq, Repr

/-- The number of a kind. -/
def KeyAlgorithm.id : KeyAlgorithm → UInt8
  | rsa1024 => 0x06
  | rsa2048 => 0x07
  | p256 => 0x11
  | p384 => 0x14

/-- How many bits the modulus of an RSA key has. -/
def KeyAlgorithm.modulusBits? : KeyAlgorithm → Option Nat
  | rsa1024 => some 1024
  | rsa2048 => some 2048
  | p256 => none
  | p384 => none

/-- The algorithms of digests. -/
inductive HashAlgorithm
  | sha1
  | ripemd160
  | sha224
  | sha256
  | sha384
  | sha512
  deriving DecidableEq, Repr

namespace HashAlgorithm

/-- The name of an algorithm. -/
def name : HashAlgorithm → String
  | sha1 => "Sha1"
  | ripemd160 => "Ripemd160"
  | sha224 => "Sha224"
  | sha256 => "Sha256"
  | sha384 => "Sha384"
  | sha512 => "Sha512"

/-- How long the digests are. -/
def size : HashAlgorithm → Nat
  | sha1 => 20
  | ripemd160 => 20
  | sha224 => 28
  | sha256 => 32
  | sha384 => 48
  | sha512 => 64

/-- The DER header in front of a digest. -/
def header : HashAlgorithm → Bytes
  | sha1 => [0x30, 0x21, 0x30, 0x09, 0x06, 0x05, 0x2b, 0x0e, 0x03, 0x02, 0x1a, 0x05, 0x00, 0x04, 0x14]
  | ripemd160 => [0x30, 0x21, 0x30, 0x09, 0x06, 0x05, 0x2b, 0x24, 0x03, 0x02, 0x01, 0x05, 0x00, 0x04, 0x14]
  | sha224 =>
    [0x30, 0x2d, 0x30, 0x0d, 0x06, 0x09, 0x60, 0x86, 0x48, 0x01, 0x65, 0x03, 0x04, 0x02, 0x04, 0x05, 0x00, 0x04, 0x1c]
  | sha256 =>
    [0x30, 0x31, 0x30, 0x0d, 0x06, 0x09, 0x60, 0x86, 0x48, 0x01, 0x65, 0x03, 0x04, 0x02, 0x01, 0x05, 0x00, 0x04, 0x20]
  | sha384 =>
    [0x30, 0x41, 0x30, 0x0d, 0x06, 0x09, 0x60, 0x86, 0x48, 0x01, 0x65, 0x03, 0x04, 0x02, 0x02, 0x05, 0x00, 0x04, 0x30]
  | sha512 =>
    [0x30, 0x51, 0x30, 0x0d, 0x06, 0x09, 0x60, 0x86, 0x48, 0x01, 0x65, 0x03, 0x04, 0x02, 0x03, 0x05, 0x00, 0x04, 0x40]

end HashAlgorithm

/-! ## Templates -/

/-- The tag of a template. -/
def templateTag : UInt8 := 0x7c

/-- The tag of what is to be signed. -/
def challengeTag : UInt8 := 0x81

/-- The tag of the signature. -/
def responseTag : UInt8 := 0x82

/-- A digest in a block as long as the modulus, with at least eight bytes of padding. -/
def padBlock (hash : Bytes) (algorithm : HashAlgorithm) (modulusBits : Nat) : Except Error Bytes :=
  let info := algorithm.header ++ hash
  let length := modulusBits / 8
  if length < info.length + 11 then
    .error (.protocol (toString modulusBits ++ "-bit modulus too small for " ++ algorithm.name ++ " DigestInfo"))
  else .ok ([0x00, 0x01] ++ List.replicate (length - info.length - 3) 0xff ++ 0x00 :: info)

/-- What a key of the given kind signs. -/
def challenge (hash : Bytes) (algorithm : HashAlgorithm) (key : KeyAlgorithm) : Except Error Bytes :=
  match key.modulusBits? with
  | some bits => padBlock hash algorithm bits
  | none => .ok hash

/-- The template by which a digest is signed. -/
def signatureTemplate (hash : Bytes) (algorithm : HashAlgorithm) (key : KeyAlgorithm) : Except Error Bytes := do
  if hash.length ≠ algorithm.size then
    throw (.protocol ("bad hash length " ++ toString hash.length ++ ", expected " ++ toString algorithm.size ++
      " for " ++ algorithm.name))
  let answer ← Tlv.encode ⟨responseTag, []⟩
  let question ← Tlv.encode ⟨challengeTag, ← challenge hash algorithm key⟩
  Tlv.encode ⟨templateTag, answer ++ question⟩

/-- The signature in a template. -/
def readSignature (data : Bytes) : Except Error Bytes := do
  let (t, _) ← Tlv.read data
  if t.tag ≠ templateTag then throw (.protocol "malformed signature TLV, no 7C tag")
  match ← Tlv.find? responseTag t.value with
  | some signature => return signature
  | none => throw (.protocol "malformed signature TLV, no 82 tag")

end SecurityKey.Piv
