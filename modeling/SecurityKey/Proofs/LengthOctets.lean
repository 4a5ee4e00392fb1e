import Mathlib.Algebra.Group.Nat.Defs
import SecurityKey.Bytes

/-!
# Lengths in one of three forms

A length below 128 is one byte. Otherwise a first byte tells that one or two bytes with the length follow, which may be
small all the same.

- `LengthOctets n octets`: the bytes announce the length `n`, which is at most 65535 (`LengthOctets.le`); every length
  can be announced in each of the forms that hold it (`LengthOctets.ofNat_short`, `LengthOctets.ofNat_one`,
  `LengthOctets.ofNat_two`);
- `IsTagged tag contents b`: the bytes are a tag, the length of the contents in one of the forms, and the contents.
-/

namespace SecurityKey

/-- The bytes announce a length. -/
inductive LengthOctets : Nat → Bytes → Prop
  /-- A byte that is not one of those in front of a longer form. -/
  | short (n : UInt8) (h : n < 0x80) : LengthOctets n.toNat [n]
  | oneByte (n : UInt8) : LengthOctets n.toNat [0x81, n]
  | twoBytes (hi lo : UInt8) : LengthOctets (Bytes.toNat [hi, lo]) [0x82, hi, lo]

/-- The bytes are a tag, the length of the contents, and the contents. -/
def IsTagged (tag : UInt8) (contents b : Bytes) : Prop :=
  ∃ octets, LengthOctets contents.length octets ∧ b = tag :: octets ++ contents

namespace LengthOctets

variable {n : Nat} {octets : Bytes}

/-- Two bytes are the most that a length takes. -/
theorem le (h : LengthOctets n octets) : n ≤ 65535 := by
  cases h with
  | short n | oneByte n =>
    have := n.toNat_lt
    omega
  | twoBytes hi lo =>
    have hlt : Bytes.toNat [hi, lo] < 256 ^ 2 := Bytes.toNat_lt [hi, lo]
    omega

theorem length_pos (h : LengthOctets n octets) : 0 < octets.length := by
  cases h <;> exact Nat.zero_lt_succ _

theorem length_le (h : LengthOctets n octets) : octets.length ≤ 3 := by
  cases h <;> exact Nat.le_add_left ..

/-- Every length below 128 can be announced by itself. -/
theorem ofNat_short (h : n < 0x80) : LengthOctets n [.ofNat n] := by
  have hn : (UInt8.ofNat n).toNat = n := by
    rw [UInt8.toNat_ofNat']
    omega
  have hlt : UInt8.ofNat n < 0x80 := by
    rw [UInt8.lt_iff_toNat_lt, hn]
    exact h
  have hshort := LengthOctets.short _ hlt
  rwa [hn] at hshort

/-- Every length of one byte can be announced in one byte. -/
theorem ofNat_one (h : n < 256) : LengthOctets n [0x81, .ofNat n] := by
  have hn : (UInt8.ofNat n).toNat = n := by
    rw [UInt8.toNat_ofNat']
    omega
  have hone := LengthOctets.oneByte (.ofNat n)
  rwa [hn] at hone

/-- Every length of at most two bytes can be announced in two bytes. -/
theorem ofNat_two (h : n ≤ 65535) : LengthOctets n (0x82 :: Bytes.ofNat 2 n) := by
  have hlt : n < 256 ^ 2 := by omega
  have htwo := LengthOctets.twoBytes (.ofNat (n / 256 ^ 1)) (.ofNat (n / 256 ^ 0))
  have hn : Bytes.toNat [.ofNat (n / 256 ^ 1), .ofNat (n / 256 ^ 0)] = n :=
    (Bytes.toNat_ofNat 2 n).trans (Nat.mod_eq_of_lt hlt)
  rwa [hn] at htwo

end LengthOctets

/-- Contents of less than 128 bytes behind a tag and one byte. -/
theorem isTagged_short {contents : Bytes} (tag : UInt8) (h : contents.length < 0x80) :
    IsTagged tag contents (tag :: .ofNat contents.length :: contents) :=
  ⟨_, .ofNat_short h, rfl⟩

end SecurityKey
