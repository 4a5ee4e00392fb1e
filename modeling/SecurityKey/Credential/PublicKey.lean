import SecurityKey.Cbor.Error
import SecurityKey.Cbor.Value

/-!
# Public keys of credentials

A key is a point of P-256 with the algorithm it is meant for. `PublicKey.toValue` is its map form and
`PublicKey.ofValue` reads it back; `PublicKey.toPoint` and `PublicKey.ofPoint` do the same for the uncompressed point.
-/

namespace SecurityKey.Credential

open Cbor (Value)

/-- The algorithms a key can be meant for. -/
inductive Algorithm
  /-- ECDSA with SHA-256. -/
  | es256
  /-- EdDSA. -/
  | edDsa
  /-- Key agreement with HKDF-256. -/
  | ecdhEsHkdf256
  /-- RSA signatures with SHA-256. -/
  | rs256
  deriving DecidableEq, Repr

/-- The registered number of an algorithm. -/
def Algorithm.id : Algorithm → Int
  | .es256 => -7
  | .edDsa => -8
  | .ecdhEsHkdf256 => -25
  | .rs256 => -257

/-- The algorithm of a registered number. -/
def Algorithm.ofId? (n : Int) : Option Algorithm :=
  [es256, edDsa, ecdhEsHkdf256, rs256].find? (·.id = n)

/-- A point of P-256 and its algorithm. -/
structure PublicKey where
  algorithm : Algorithm
  x : Bytes.Sized 32
  y : Bytes.Sized 32
  deriving DecidableEq

namespace PublicKey

/-- The labels of a key's map. -/
def keyTypeLabel : Int := 1

/-- The label of the algorithm. -/
def algorithmLabel : Int := 3

/-- The label of the curve. -/
def curveLabel : Int := -1

/-- The label of the first coordinate. -/
def xLabel : Int := -2

/-- The label of the second coordinate. -/
def yLabel : Int := -3

/-- The key of an uncompressed point. -/
def ofPoint (algorithm : Algorithm) (point : Bytes) : Except Cbor.Error PublicKey :=
  let refused := .error (.unexpectedType "public key" "uncompressed P-256 point")
  match point with
  | 0x04 :: rest =>
    match Bytes.sized? 32 (rest.take 32), Bytes.sized? 32 (rest.drop 32) with
    | some x, some y => .ok ⟨algorithm, x, y⟩
    | _, _ => refused
  | _ => refused

/-- The uncompressed point. -/
def toPoint (k : PublicKey) : Bytes := 0x04 :: k.x.val ++ k.y.val

/-- The map form of a key. -/
def toValue (k : PublicKey) : Value :=
  .record [(keyTypeLabel, some (.unsigned 2)), (algorithmLabel, some (.ofInt k.algorithm.id)),
    (curveLabel, some (.unsigned 1)), (xLabel, some (.bytes k.x.val)), (yLabel, some (.bytes k.y.val))]

/-- The value under a label of the map form. -/
def field (v : Value) (label : Int) : Except Cbor.Error Value :=
  match v.find? label with
  | some w => .ok w
  | none => .error (.missingField ("COSE key " ++ toString label))

/-- What a value was read as, or the complaint that it is not of the expected kind. -/
def expect {α : Type} (label : Int) (expected : String) : Option α → Except Cbor.Error α
  | some a => .ok a
  | none => .error (.unexpectedType ("COSE key " ++ toString label) expected)

/-- One coordinate of the map form. -/
def coordinate (v : Value) (label : Int) : Except Cbor.Error (Bytes.Sized 32) := do
  expect label "32-byte coordinate" ((← field v label).toBytes?.bind (Bytes.sized? 32))

/-- The key of a map form. Key type and curve are checked before the algorithm and the coordinates. -/
def ofValue (v : Value) : Except Cbor.Error PublicKey := do
  expect keyTypeLabel "EC2 key type" ((← field v keyTypeLabel).toUnsigned?.filter (· = 2) |>.map fun _ => ())
  expect curveLabel "P-256 curve" ((← field v curveLabel).toUnsigned?.filter (· = 1) |>.map fun _ => ())
  let algorithm ← expect algorithmLabel "known COSE algorithm"
    ((← field v algorithmLabel).toInt64?.bind Algorithm.ofId?)
  return ⟨algorithm, ← coordinate v xLabel, ← coordinate v yLabel⟩

end PublicKey

end SecurityKey.Credential
