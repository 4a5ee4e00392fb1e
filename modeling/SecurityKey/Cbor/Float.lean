/-!
# Binary floating-point formats

A float is the natural number of its bit pattern: a sign bit, a biased exponent, a fraction. Every half and
every single denotes some double, so a double has a shorter form exactly when it is the image of one.

- `Format.widen` gives the double of a shorter pattern;
- `Format.narrow?` gives the shorter pattern of a double, when there is one.
-/

namespace SecurityKey.Cbor

/-- The widths of the exponent and the fraction of a binary floating-point format. -/
structure Format where
  /-- Bits of the exponent. -/
  exponentBits : Nat
  /-- Bits of the fraction. -/
  fractionBits : Nat
  deriving DecidableEq, Repr

namespace Format

-- Powers are those of the core library, also where an algebraic library is imported before this module.
attribute [local instance (high + 1)] instPowNat

/-- Half precision. -/
def half : Format := ⟨5, 10⟩

/-- Single precision. -/
def single : Format := ⟨8, 23⟩

/-- Double precision. -/
def double : Format := ⟨11, 52⟩

variable (f : Format)

/-- The exponent of one is stored as the bias. -/
def bias : Nat := 2 ^ (f.exponentBits - 1) - 1

/-- The largest stored exponent, which marks infinities and NaNs. -/
def maxExponent : Nat := 2 ^ f.exponentBits - 1

/-- The pattern with the given sign, stored exponent and fraction. -/
def pack (sign exponent fraction : Nat) : Nat :=
  (sign * 2 ^ f.exponentBits + exponent) * 2 ^ f.fractionBits + fraction

/-- The sign bit of a pattern. -/
def sign (bits : Nat) : Nat := bits / 2 ^ (f.exponentBits + f.fractionBits) % 2

/-- The stored exponent of a pattern. -/
def exponent (bits : Nat) : Nat := bits / 2 ^ f.fractionBits % 2 ^ f.exponentBits

/-- The fraction of a pattern. -/
def fraction (bits : Nat) : Nat := bits % 2 ^ f.fractionBits

/-- A pattern is a NaN when its exponent is the largest and its fraction is not zero. -/
def isNaN (bits : Nat) : Bool := f.exponent bits == f.maxExponent && f.fraction bits != 0

/-- The double that denotes the same number as a shorter pattern. A subnormal is normalised: its leading bit
becomes the hidden one. A NaN stays one, but not always the one that a library makes of it: its quiet bit stays clear
where a conversion would set it. Payloads of NaNs are not kept apart, and all NaNs are written alike. -/
def widen (bits : Nat) : Nat :=
  let s := f.sign bits
  let e := f.exponent bits
  let m := f.fraction bits
  if e = f.maxExponent then
    double.pack s double.maxExponent (m * 2 ^ (52 - f.fractionBits))
  else if e = 0 then
    if m = 0 then double.pack s 0 0
    else
      let k := m.log2
      double.pack s (k + 1 + double.bias - f.bias - f.fractionBits) ((m - 2 ^ k) * 2 ^ (52 - k))
  else double.pack s (e + double.bias - f.bias) (m * 2 ^ (52 - f.fractionBits))

/-- The shorter pattern that denotes exactly the number of a double. A normal number needs its low fraction
bits to be zero; below the normal range the significand, hidden bit included, is shifted further right, and
the bits shifted out have to be zero. -/
def narrow? (bits : Nat) : Option Nat :=
  let s := double.sign bits
  let e := double.exponent bits
  let m := double.fraction bits
  let drop := 52 - f.fractionBits
  if e = double.maxExponent then
    if m = 0 then some (f.pack s f.maxExponent 0) else none
  else if e = 0 then
    if m = 0 then some (f.pack s 0 0) else none
  else if e + f.bias ≤ double.bias then
    let shift := drop + (double.bias + 1 - f.bias - e)
    let significand := 2 ^ double.fractionBits + m
    if shift ≤ 52 ∧ significand % 2 ^ shift = 0 then some (f.pack s 0 (significand / 2 ^ shift)) else none
  else if e + f.bias < double.bias + f.maxExponent then
    if m % 2 ^ drop = 0 then some (f.pack s (e + f.bias - double.bias) (m / 2 ^ drop)) else none
  else none

end Format

end SecurityKey.Cbor
