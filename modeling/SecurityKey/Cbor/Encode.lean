import SecurityKey.Cbor.Float
import SecurityKey.Cbor.Value

/-!
# Writing CBOR

The canonical form: headers as short as their argument allows, bignums without leading zeros, floats in the
narrowest format that holds their number, and the entries of every map sorted by the length and then the bytes of
their encoded keys. Entries with equal keys keep their order.
-/

namespace SecurityKey.Cbor

/-- The header of an item: its major type and the shortest form of its argument. -/
def header (major n : Nat) : Bytes :=
  let first (info : Nat) := UInt8.ofNat (major * 32 + info)
  if n < 24 then [first n]
  else if n < 0x100 then first 24 :: Bytes.ofNat 1 n
  else if n < 0x10000 then first 25 :: Bytes.ofNat 2 n
  else if n < 0x100000000 then first 26 :: Bytes.ofNat 4 n
  else first 27 :: Bytes.ofNat 8 n

/-- The tag of a bignum. -/
def bignumTag (isNegative : Bool) : Nat := if isNegative then 3 else 2

/-- A double in the narrowest format that holds it; all NaNs have one form. -/
def encodeFloat (bits : UInt64) : Bytes :=
  let d := bits.toNat
  if Format.double.isNaN d then [0xf9, 0x7e, 0x00]
  else match Format.half.narrow? d, Format.single.narrow? d with
    | some h, _ => 0xf9 :: Bytes.ofNat 2 h
    | none, some s => 0xfa :: Bytes.ofNat 4 s
    | none, none => 0xfb :: Bytes.ofNat 8 d

/-- The order of encoded keys: shorter first, then bytewise. -/
def keyLE (a b : Bytes) : Bool :=
  a.length < b.length || (a.length == b.length && decide (a ≤ b))

/-- Encoded entries in the order of their keys. -/
def sortEntries (entries : List (Bytes × Bytes)) : List (Bytes × Bytes) :=
  entries.mergeSort fun a b => keyLE a.1 b.1

namespace Value

mutual

/-- The canonical form of an item. -/
def encode : Value → Bytes
  | .unsigned n => header 0 n.toNat
  | .negative n => header 1 n.toNat
  | .bignum isNegative magnitude =>
    let digits := Bytes.stripZeros magnitude
    header 6 (bignumTag isNegative) ++ header 2 digits.length ++ digits
  | .bytes b => header 2 b.length ++ b
  | .text s => header 3 (Bytes.ofString s).length ++ Bytes.ofString s
  | .array items => header 4 items.length ++ encodeItems items
  | .map entries =>
    header 5 entries.length ++ (sortEntries (encodeEntries entries)).flatMap fun e => e.1 ++ e.2
  | .tag number content => header 6 number.toNat ++ encode content
  | .float bits => encodeFloat bits
  | .bool false => [0xf4]
  | .bool true => [0xf5]
  | .null => [0xf6]

/-- The forms of the items of an array, joined. -/
def encodeItems : List Value → Bytes
  | [] => []
  | v :: rest => encode v ++ encodeItems rest

/-- The forms of the keys and values of a map. -/
def encodeEntries : List (Value × Value) → List (Bytes × Bytes)
  | [] => []
  | (k, v) :: rest => (encode k, encode v) :: encodeEntries rest

end

end Value

end SecurityKey.Cbor
