import SecurityKey.Crypto.P256

/-!
# Key pairs and key agreement

- `KeyPair.ofBytes` accepts the 32 bytes of a scalar that is neither zero nor too large;
- `KeyPair.agree` is the first coordinate of the product of the own scalar and the peer's point, which has to be a
  point of the curve.
-/

namespace SecurityKey.Crypto

/-- Why a key or its use is refused. -/
inductive Error
  /-- The bytes are no point of the curve. -/
  | invalidPublicKey
  /-- The bytes are no scalar of the group. -/
  | invalidPrivateKey
  /-- A key or a coordinate has the wrong length. -/
  | invalidKeyLength (expected actual : Nat)
  /-- The data are not a whole number of blocks. -/
  | invalidBlockLength (length : Nat)
  /-- The PIN does not fit its padded form. -/
  | pinTooLong (length : Nat)
  deriving DecidableEq, Repr

/-- The text of an error. -/
def Error.message : Error → String
  | .invalidPublicKey => "Invalid public key"
  | .invalidPrivateKey => "Invalid private key"
  | .invalidKeyLength expected actual =>
    "Invalid key length: expected " ++ toString expected ++ ", got " ++ toString actual
  | .invalidBlockLength n => "Data length " ++ toString n ++ " is not a multiple of the AES block size"
  | .pinTooLong n => "PIN is " ++ toString n ++ " bytes, at most 63 are allowed"

/-- A scalar and its multiple of the generator. -/
structure KeyPair where
  scalar : Nat
  point : P256.Point
  deriving DecidableEq, Repr

namespace KeyPair

/-- The pair of a 32-byte scalar. -/
def ofBytes (secret : Bytes) : Except Error KeyPair :=
  let n := secret.toNat
  if secret.length = 32 ∧ 0 < n ∧ n < P256.order then
    match P256.mul n P256.generator with
    | some p => .ok ⟨n, p⟩
    | none => .error .invalidPrivateKey
  else .error .invalidPrivateKey

/-- The first coordinate of the public point. -/
def x (k : KeyPair) : Bytes := Bytes.ofNat 32 k.point.x

/-- The second coordinate of the public point. -/
def y (k : KeyPair) : Bytes := Bytes.ofNat 32 k.point.y

@[simp]
theorem length_x (k : KeyPair) : k.x.length = 32 := Bytes.length_ofNat 32 _

@[simp]
theorem length_y (k : KeyPair) : k.y.length = 32 := Bytes.length_ofNat 32 _

/-- The secret shared with the owner of an encoded point. -/
def agree (k : KeyPair) (peer : Bytes) : Except Error Bytes :=
  match (P256.Point.ofBytes? peer).bind (P256.mul k.scalar) with
  | some p => .ok (Bytes.ofNat 32 p.x)
  | none => .error .invalidPublicKey

/-- The secret shared with the owner of a point given by its coordinates. -/
def agreeCoordinates (k : KeyPair) (x y : Bytes) : Except Error Bytes :=
  if x.length ≠ 32 then .error (.invalidKeyLength 32 x.length)
  else if y.length ≠ 32 then .error (.invalidKeyLength 32 y.length)
  else k.agree (0x04 :: x ++ y)

end KeyPair

/-- The coordinates of an uncompressed point of the curve. -/
def pointCoordinates (point : Bytes) : Except Error (Bytes × Bytes) :=
  match point with
  | 0x04 :: rest =>
    if (P256.Point.ofBytes? point).isSome then .ok (rest.take 32, rest.drop 32) else .error .invalidPublicKey
  | _ => .error .invalidPublicKey

end SecurityKey.Crypto
