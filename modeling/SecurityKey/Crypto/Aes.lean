import SecurityKey.Bytes
import SecurityKey.Chunks

/-!
# AES-256

A block is a list of sixteen bytes, column after column. The byte substitution is computed from the inverse in
`GF(2^8)` and an affine map; decryption undoes the layers of encryption in reverse order.
-/

namespace SecurityKey.Crypto.Aes

/-! ## The field of bytes -/

/-- Multiplication by `x` in `GF(2^8)`. -/
def double (a : UInt8) : UInt8 :=
  a <<< 1 ^^^ (if a &&& 0x80 = 0 then 0 else 0x1b)

/-- Multiplication in `GF(2^8)`, bit by bit of the second factor. -/
def mul (a b : UInt8) : UInt8 :=
  ((List.range 8).foldl (fun (acc, a) i => (if b.toNat.testBit i then acc ^^^ a else acc, double a)) (0, a)).1

/-- The inverse of a byte, as its power 254; zero stays zero. -/
def inverse (a : UInt8) : UInt8 :=
  let a2 := mul a a
  let a3 := mul a2 a
  let a12 := mul (mul a3 a3) (mul a3 a3)
  let a15 := mul a12 a3
  let a30 := mul a15 a15
  let a60 := mul a30 a30
  let a120 := mul a60 a60
  let a240 := mul a120 a120
  mul (mul a240 a12) a2

/-- A byte turned left. -/
def rotate (a : UInt8) (n : UInt8) : UInt8 := a <<< n ||| a >>> (8 - n)

/-- The substitution of one byte. -/
def substitute (a : UInt8) : UInt8 :=
  let b := inverse a
  b ^^^ rotate b 1 ^^^ rotate b 2 ^^^ rotate b 3 ^^^ rotate b 4 ^^^ 0x63

/-- The substitution undone. -/
def unsubstitute (a : UInt8) : UInt8 :=
  inverse (rotate a 1 ^^^ rotate a 3 ^^^ rotate a 6 ^^^ 0x05)

/-- The substitution of every byte, in order. -/
def substituteTable : Array UInt8 := (Array.range 256).map fun n => substitute (.ofNat n)

/-- The undone substitution of every byte, in order. -/
def unsubstituteTable : Array UInt8 := (Array.range 256).map fun n => unsubstitute (.ofNat n)

/-! ## Layers -/

/-- A block or a round key. -/
abbrev Block := List UInt8

/-- Bytewise sum. -/
def add (a b : Block) : Block := List.zipWith (· ^^^ ·) a b

/-- Every byte substituted. -/
def substituteBytes (b : Block) : Block := b.map fun x => substituteTable.getD x.toNat 0

/-- The substitution of every byte undone. -/
def unsubstituteBytes (b : Block) : Block := b.map fun x => unsubstituteTable.getD x.toNat 0

/-- Row `r` of the square moves left by `r` columns. -/
def shiftRows : Block → Block
  | [a0, a1, a2, a3, b0, b1, b2, b3, c0, c1, c2, c3, d0, d1, d2, d3] =>
    [a0, b1, c2, d3, b0, c1, d2, a3, c0, d1, a2, b3, d0, a1, b2, c3]
  | b => b

/-- Row `r` of the square moves right by `r` columns. -/
def unshiftRows : Block → Block
  | [a0, a1, a2, a3, b0, b1, b2, b3, c0, c1, c2, c3, d0, d1, d2, d3] =>
    [a0, d1, c2, b3, b0, a1, d2, c3, c0, b1, a2, d3, d0, c1, b2, a3]
  | b => b

/-- A column times the polynomial with the given coefficients. -/
def mulColumn (m0 m1 m2 m3 a b c d : UInt8) : List UInt8 :=
  [mul a m0 ^^^ mul b m1 ^^^ mul c m2 ^^^ mul d m3, mul a m3 ^^^ mul b m0 ^^^ mul c m1 ^^^ mul d m2,
   mul a m2 ^^^ mul b m3 ^^^ mul c m0 ^^^ mul d m1, mul a m1 ^^^ mul b m2 ^^^ mul c m3 ^^^ mul d m0]

/-- Every column mixed. -/
def mixColumns : Block → Block
  | a :: b :: c :: d :: rest => mulColumn 2 3 1 1 a b c d ++ mixColumns rest
  | b => b

/-- The mixing of every column undone. -/
def unmixColumns : Block → Block
  | a :: b :: c :: d :: rest => mulColumn 14 11 13 9 a b c d ++ unmixColumns rest
  | b => b

/-! ## Key schedule -/

/-- The eight key words that follow eight given ones. -/
def nextWords (constant : UInt8) (ws : List Block) : List Block :=
  match ws with
  | [w0, w1, w2, w3, w4, w5, w6, w7] =>
    let turned := substituteBytes (w7.drop 1 ++ w7.take 1)
    let v0 := add (add w0 turned) [constant, 0, 0, 0]
    let v1 := add w1 v0
    let v2 := add w2 v1
    let v3 := add w3 v2
    let v4 := add w4 (substituteBytes v3)
    let v5 := add w5 v4
    let v6 := add w6 v5
    [v0, v1, v2, v3, v4, v5, v6, add w7 v6]
  | _ => ws

/-- The words of the schedule, eight per constant, after the words of the key. -/
def expand (ws : List Block) : List UInt8 → List Block
  | [] => ws
  | constant :: rest => ws ++ expand (nextWords constant ws) rest

/-- The fifteen round keys of a 32-byte key. -/
def roundKeys (key : Bytes) : List Block :=
  let ws := expand (chunks 4 key) [1, 2, 4, 8, 16, 32, 64]
  (chunks 4 (ws.take 60)).map List.flatten

/-! ## Blocks -/

/-- The rounds after the first key addition; the last round does not mix columns. -/
def encryptRounds : List Block → Block → Block
  | [], b => b
  | [k], b => add (shiftRows (substituteBytes b)) k
  | k :: ks, b => encryptRounds ks (add (mixColumns (shiftRows (substituteBytes b))) k)

/-- One block encrypted. -/
def encryptBlock (keys : List Block) (b : Block) : Block :=
  match keys with
  | [] => b
  | k :: ks => encryptRounds ks (add b k)

/-- The rounds undone, with the round keys in the order of encryption. -/
def decryptRounds : List Block → Block → Block
  | [], b => b
  | [k], b => unsubstituteBytes (unshiftRows (add b k))
  | k :: ks, b => unsubstituteBytes (unshiftRows (unmixColumns (add (decryptRounds ks b) k)))

/-- One block decrypted. -/
def decryptBlock (keys : List Block) (b : Block) : Block :=
  match keys with
  | [] => b
  | k :: ks => add (decryptRounds ks b) k

/-! ## Chained blocks -/

/-- Blocks encrypted one after the other, each added to the result of the one before. -/
def encryptChain (keys : List Block) : Block → List Block → List Block
  | _, [] => []
  | previous, b :: rest =>
    let c := encryptBlock keys (add b previous)
    c :: encryptChain keys c rest

/-- Chained blocks decrypted. -/
def decryptChain (keys : List Block) : Block → List Block → List Block
  | _, [] => []
  | previous, c :: rest => add (decryptBlock keys c) previous :: decryptChain keys c rest

/-- The block before the first one: all zeros. -/
def zeroBlock : Block := List.replicate 16 0

/-- Whole blocks encrypted in chaining mode from a zero block, without padding. -/
def encrypt (key data : Bytes) : Bytes :=
  (encryptChain (roundKeys key) zeroBlock (chunks 16 data)).flatten

/-- Whole blocks decrypted in chaining mode from a zero block, without padding. -/
def decrypt (key data : Bytes) : Bytes :=
  (decryptChain (roundKeys key) zeroBlock (chunks 16 data)).flatten

end SecurityKey.Crypto.Aes
