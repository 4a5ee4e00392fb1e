import SecurityKey.Crypto.Sha1

/-!
# Fingerprints of OpenPGP keys

The fingerprint of a public key is the SHA-1 digest of its key packet: a tag, a length, and a body of version, time of
creation, algorithm and key material (`preimage`). Integers are written with their exact number of bits and without
leading zeros (`integer`).
-/

namespace SecurityKey.OpenPgp

/-! ## Keys -/

/-- The curves of OpenPGP cards. -/
inductive Curve
  | p256
  | p384
  | p521
  | ed25519
  | x25519
  deriving DecidableEq, Repr

/-- The object identifier of a curve, without DER header. -/
def Curve.oid : Curve → Bytes
  | p256 => [0x2a, 0x86, 0x48, 0xce, 0x3d, 0x03, 0x01, 0x07]
  | p384 => [0x2b, 0x81, 0x04, 0x00, 0x22]
  | p521 => [0x2b, 0x81, 0x04, 0x00, 0x23]
  | ed25519 => [0x2b, 0x06, 0x01, 0x04, 0x01, 0xda, 0x47, 0x0f, 0x01]
  | x25519 => [0x2b, 0x06, 0x01, 0x04, 0x01, 0x97, 0x55, 0x01, 0x05, 0x01]

/-- A public key. -/
inductive PublicKey
  | rsa (modulus exponent : Bytes)
  | ecdsa (curve : Curve) (point : Bytes)
  | ecdh (curve : Curve) (point : Bytes)
  | eddsa (point : Bytes)
  deriving DecidableEq

namespace PublicKey

/-- A point of a curve with a point format of its own. -/
def nativePoint (raw : Bytes.Sized 32) : Bytes := 0x40 :: raw.val

/-- The signing key of 32 bytes on curve 25519. -/
def ofEd25519 (raw : Bytes.Sized 32) : PublicKey := .eddsa (nativePoint raw)

/-- The encryption key of 32 bytes on curve 25519. -/
def ofX25519 (raw : Bytes.Sized 32) : PublicKey := .ecdh .x25519 (nativePoint raw)

/-- The number of a key's algorithm. -/
def algorithm : PublicKey → UInt8
  | rsa .. => 1
  | ecdh .. => 18
  | ecdsa .. => 19
  | eddsa _ => 22

end PublicKey

/-! ## Key packets -/

/-- How many bits a number has, with none for zero. -/
def bitLength (n : Nat) : Nat := if n = 0 then 0 else n.log2 + 1

/-- A big-endian number: its number of bits in two bytes, then its bytes without leading zeros. -/
def integer (magnitude : Bytes) : Bytes :=
  Bytes.ofNat 2 (bitLength magnitude.toNat) ++ magnitude.stripZeros

/-- A curve: the length of its identifier and the identifier. -/
def curveField (c : Curve) : Bytes := .ofNat c.oid.length :: c.oid

/-- How session keys are derived from an agreement: with SHA-256, for AES-128. -/
def derivationField : Bytes := [0x03, 0x01, 0x08, 0x07]

/-- The key material of a packet. -/
def PublicKey.material : PublicKey → Bytes
  | rsa modulus exponent => integer modulus ++ integer exponent
  | ecdsa curve point => curveField curve ++ integer point
  | ecdh curve point => curveField curve ++ integer point ++ derivationField
  | eddsa point => curveField .ed25519 ++ integer point

/-- The body of a key packet of version four. -/
def PublicKey.body (k : PublicKey) (created : UInt32) : Bytes :=
  0x04 :: Bytes.ofNat 4 created.toNat ++ k.algorithm :: k.material

/-- What is digested. -/
def preimage (k : PublicKey) (created : UInt32) : Bytes :=
  0x99 :: Bytes.ofNat 2 (k.body created).length ++ k.body created

/-- The fingerprint of a key created at a time in seconds. -/
def fingerprint (k : PublicKey) (created : UInt32) : Bytes := Crypto.Sha1.digest (preimage k created)

end SecurityKey.OpenPgp
