import SecurityKey.Bytes

/-!
# The curve P-256

Points of `y^2 = x^3 - 3 x + b` over the integers modulo a prime. Products of a point and a scalar are computed in
projective coordinates, where `(X, Y, Z)` stands for `(X / Z^2, Y / Z^3)` and `Z = 0` for the point at infinity.

- `Point.ofBytes?` reads an uncompressed or compressed point and accepts only points of the curve;
- `mul` is the product of a point and a scalar.
-/

namespace SecurityKey.Crypto.P256

/-! ## The field -/

/-- The prime of the field. -/
def prime : Nat := 0xffffffff00000001000000000000000000000000ffffffffffffffffffffffff

/-- The number of points. -/
def order : Nat := 0xffffffff00000000ffffffffffffffffbce6faada7179e84f3b9cac2fc632551

/-- The constant term of the curve. -/
def b : Nat := 0x5ac635d8aa3a93e7b3ebbd55769886bc651d06b0cc53b0f63bce3c3e27d2604b

/-- A product in the field. -/
def fmul (x y : Nat) : Nat := x * y % prime

/-- A sum in the field. -/
def fadd (x y : Nat) : Nat := (x + y) % prime

/-- A difference in the field. -/
def fsub (x y : Nat) : Nat := (x + (prime - y % prime)) % prime

/-- The bits of a number below `2 ^ 256`, the highest first. -/
def bits (n : Nat) : List Bool := (List.range 256).reverse.map n.testBit

/-- A power in the field. -/
def fpow (x n : Nat) : Nat :=
  (bits n).foldl (fun r bit => if bit then fmul (fmul r r) x else fmul r r) 1

/-- The inverse of a field element that is not zero. -/
def finv (x : Nat) : Nat := fpow x (prime - 2)

/-! ## Points -/

/-- A point with two coordinates. -/
structure Point where
  x : Nat
  y : Nat
  deriving DecidableEq, Repr

/-- The point that generates the group. -/
def generator : Point :=
  ⟨0x6b17d1f2e12c4247f8bce6e563a440f277037d812deb33a0f4a13945d898c296,
   0x4fe342e2fe1a7f9b8ee7eb4a7c0f9e162bce33576b315ececbb6406837bf51f5⟩

/-- The right-hand side of the equation of the curve. -/
def cubic (x : Nat) : Nat := fadd (fsub (fmul x (fmul x x)) (fmul 3 x)) b

/-- Whether a pair of coordinates is a point of the curve. -/
def Point.isOnCurve (p : Point) : Bool :=
  p.x < prime && p.y < prime && fmul p.y p.y == cubic p.x

/-- The point with a given first coordinate whose second one is odd or even as asked. -/
def Point.withX? (x : Nat) (odd : Bool) : Option Point :=
  let y := fpow (cubic x) ((prime + 1) / 4)
  let p : Point := ⟨x, if (y % 2 == 1) == odd then y else fsub 0 y⟩
  if p.isOnCurve then some p else none

/-- The point of an encoding: a tag, then both coordinates, or the first one alone. -/
def Point.ofBytes? (encoded : Bytes) : Option Point :=
  match encoded with
  | 0x04 :: rest =>
    let p : Point := ⟨Bytes.toNat (rest.take 32), Bytes.toNat (rest.drop 32)⟩
    if rest.length = 64 ∧ p.isOnCurve then some p else none
  | 0x02 :: rest => if rest.length = 32 then withX? (Bytes.toNat rest) false else none
  | 0x03 :: rest => if rest.length = 32 then withX? (Bytes.toNat rest) true else none
  | 0x05 :: rest => if rest.length = 32 then withX? (Bytes.toNat rest) false else none
  | _ => none

/-- The uncompressed encoding. -/
def Point.toBytes (p : Point) : Bytes := 0x04 :: Bytes.ofNat 32 p.x ++ Bytes.ofNat 32 p.y

/-! ## Products -/

/-- A point in projective coordinates. -/
structure Projective where
  x : Nat
  y : Nat
  z : Nat
  deriving DecidableEq, Repr

namespace Projective

/-- The point at infinity. -/
def infinity : Projective := ⟨1, 1, 0⟩

/-- The sum of a point and itself. -/
def double (p : Projective) : Projective :=
  if p.z = 0 then infinity
  else
    let zz := fmul p.z p.z
    let yy := fmul p.y p.y
    let s := fmul 4 (fmul p.x yy)
    let m := fmul 3 (fmul (fsub p.x zz) (fadd p.x zz))
    let x := fsub (fmul m m) (fmul 2 s)
    ⟨x, fsub (fmul m (fsub s x)) (fmul 8 (fmul yy yy)), fmul 2 (fmul p.y p.z)⟩

/-- The sum of a point and a point with two coordinates. -/
def addPoint (p : Projective) (q : Point) : Projective :=
  if p.z = 0 then ⟨q.x, q.y, 1⟩
  else
    let zz := fmul p.z p.z
    let h := fsub (fmul q.x zz) p.x
    let r := fsub (fmul q.y (fmul zz p.z)) p.y
    if h = 0 then
      if r = 0 then double p else infinity
    else
      let hh := fmul h h
      let hhh := fmul hh h
      let v := fmul p.x hh
      let x := fsub (fsub (fmul r r) hhh) (fmul 2 v)
      ⟨x, fsub (fmul r (fsub v x)) (fmul p.y hhh), fmul p.z h⟩

/-- The two coordinates, when the point is not at infinity. -/
def toPoint? (p : Projective) : Option Point :=
  if p.z = 0 then none
  else
    let i := finv p.z
    let ii := fmul i i
    some ⟨fmul p.x ii, fmul p.y (fmul ii i)⟩

end Projective

/-- The product of a scalar and a point, unless it is the point at infinity. -/
def mul (n : Nat) (p : Point) : Option Point :=
  let step (q : Projective) (bit : Bool) := if bit then q.double.addPoint p else q.double
  ((bits n).foldl step Projective.infinity).toPoint?

end SecurityKey.Crypto.P256
