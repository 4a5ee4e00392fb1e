import SecurityKey.Crypto.KeyPair
import SecurityKey.Proofs.Action

/-!
# Agreements by coordinates

A key pair agrees with the owner of two coordinates exactly when they are a point of the curve and its product with the
scalar is one (`toOption_agreeCoordinates`). The coordinates of a pair's public key are those of its point
(`point_of_coordinates`).
-/

namespace SecurityKey.Crypto

/-- The point of an uncompressed encoding. -/
theorem P256.Point.ofBytes?_coordinates {x y : Bytes} (hx : x.length = 32) (hy : y.length = 32) :
    ofBytes? (0x04 :: (x ++ y)) =
      if (⟨x.toNat, y.toNat⟩ : Point).isOnCurve then some ⟨x.toNat, y.toNat⟩ else none := by
  have hlength : (x ++ y).length = 64 := by rw [List.length_append, hx, hy]
  simp only [ofBytes?, hlength, List.take_left' hx, List.drop_left' hx, true_and]

namespace KeyPair

variable {k : KeyPair}

theorem toOption_agreeCoordinates {x y : Bytes} (hx : x.length = 32) (hy : y.length = 32) :
    (k.agreeCoordinates x y).toOption =
      if (⟨x.toNat, y.toNat⟩ : P256.Point).isOnCurve then
        (P256.mul k.scalar ⟨x.toNat, y.toNat⟩).map fun p => Bytes.ofNat 32 p.x
      else none := by
  rw [agreeCoordinates, if_neg (not_not_intro hx), if_neg (not_not_intro hy), agree, List.cons_append,
    P256.Point.ofBytes?_coordinates hx hy]
  by_cases h : (⟨x.toNat, y.toNat⟩ : P256.Point).isOnCurve = true
  · rw [if_pos h, if_pos h, Option.bind_some]
    cases P256.mul k.scalar ⟨x.toNat, y.toNat⟩ <;> rfl
  · rw [if_neg h, if_neg h]
    rfl

theorem toNat_ofNat_of_lt_prime {n : Nat} (h : n < P256.prime) : (Bytes.ofNat 32 n).toNat = n := by
  rw [Bytes.toNat_ofNat]
  exact Nat.mod_eq_of_lt (Nat.lt_trans h (by decide +kernel))

theorem point_of_coordinates (h : k.point.isOnCurve = true) : (⟨k.x.toNat, k.y.toNat⟩ : P256.Point) = k.point := by
  simp only [P256.Point.isOnCurve, Bool.and_eq_true, decide_eq_true_eq] at h
  rw [x, y, toNat_ofNat_of_lt_prime h.1.1, toNat_ofNat_of_lt_prime h.1.2]

/-- The agreement with another key pair is by the product with its point. -/
theorem agreeCoordinates_of_mul {l : KeyPair} {p : P256.Point} (hl : l.point.isOnCurve = true)
    (hp : P256.mul k.scalar l.point = some p) : k.agreeCoordinates l.x l.y = .ok (Bytes.ofNat 32 p.x) := by
  apply Action.eq_ok_of_toOption
  rw [toOption_agreeCoordinates l.length_x l.length_y, point_of_coordinates hl, if_pos hl, hp]
  rfl

end KeyPair

end SecurityKey.Crypto
