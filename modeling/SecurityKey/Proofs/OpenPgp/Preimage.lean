import Mathlib.Algebra.Group.Nat.Defs
import SecurityKey.OpenPgp.Fingerprint

/-!
# What a fingerprint is taken of

- the number of bits of a magnitude can be told from the first byte that is not zero (`countBits_stripZeros`);
- an integer is written by its number alone, since leading zeros are left out (`integer_eq`), and as long as the number
  of bits fits its field, the number can be told from what is written, whatever follows (`integer_append_inj`);
- keys are digested as the same bytes exactly when they are the same numbers in the same places
  (`preimage_faithful`).
-/

namespace SecurityKey.OpenPgp

variable {n : Nat} {a b s t : Bytes}

/-! ## Numbers of bits -/

/-- The number of bits is exact. -/
theorem lt_bitLength_iff {i : Nat} : i < bitLength n ↔ 2 ^ i ≤ n := by
  by_cases hn : n = 0
  · have := Nat.two_pow_pos i
    rw [bitLength, if_pos hn]
    omega
  · rw [bitLength, if_neg hn, ← Nat.le_log2 hn, Nat.lt_succ_iff]

/-- A number that needs one bit more than `k`. -/
theorem bitLength_eq {k : Nat} (hlow : 2 ^ k ≤ n) (hhigh : n < 2 ^ (k + 1)) : bitLength n = k + 1 := by
  have hne : n ≠ 0 := by
    have := Nat.two_pow_pos k
    omega
  rw [bitLength, if_neg hne, (Nat.log2_eq_iff hne).mpr ⟨hlow, hhigh⟩]

/-- How many bits a magnitude without leading zeros has, counted from its first byte. -/
def countBits : Bytes → Nat
  | [] => 0
  | first :: rest => rest.length * 8 + (8 - first.toBitVec.clz.toNat)

/-- The first byte and the number of the others tell the number of bits. -/
theorem countBits_cons {x : UInt8} (hx : x ≠ 0) (r : Bytes) :
    countBits (x :: r) = bitLength (Bytes.toNat (x :: r)) := by
  have hx' : x.toBitVec ≠ 0#8 := fun h => hx (UInt8.toBitVec_inj.mp h)
  have hlow : 2 ^ (7 - x.toBitVec.clz.toNat) ≤ x.toNat := BitVec.two_pow_sub_clz_le_toNat_of_ne_zero (by decide) hx'
  have hhigh : x.toNat < 2 ^ (8 - x.toBitVec.clz.toNat) := BitVec.toNat_lt_two_pow_sub_clz
  rw [countBits, Bytes.toNat_cons]
  generalize x.toBitVec.clz.toNat = c at hlow hhigh
  have hc : c < 8 := by
    by_cases h : c < 8
    · exact h
    · have hzero : 8 - c = 0 := by omega
      rw [hzero] at hhigh
      have := Nat.two_pow_pos (7 - c)
      omega
  have hrest := Bytes.toNat_lt r
  have h256 : 256 ^ r.length = 2 ^ (r.length * 8) := by rw [Nat.mul_comm, Nat.pow_mul]
  rw [h256] at hrest ⊢
  have hk : r.length * 8 + (8 - c) = 7 - c + r.length * 8 + 1 := by omega
  rw [hk, bitLength_eq]
  · have := Nat.mul_le_mul_right (2 ^ (r.length * 8)) hlow
    rw [← Nat.pow_add] at this
    omega
  · have := Nat.mul_le_mul_right (2 ^ (r.length * 8)) (Nat.succ_le_of_lt hhigh)
    rw [← Nat.pow_add, Nat.succ_mul] at this
    have hk : 8 - c + r.length * 8 = 7 - c + r.length * 8 + 1 := by omega
    rw [hk] at this
    omega

/-- The number of bits is that of the number, leading zeros or not. -/
theorem countBits_stripZeros (b : Bytes) : countBits b.stripZeros = bitLength b.toNat := by
  rw [← Bytes.toNat_stripZeros]
  cases h : b.stripZeros with
  | nil => rfl
  | cons x r => exact countBits_cons (Bytes.head_stripZeros_ne_zero h) r

theorem width_eq (n : Nat) : Bytes.width n = (bitLength n + 7) / 8 := by
  rw [Bytes.width, bitLength]
  split <;> omega

/-! ## Integers -/

/-- An integer is written by its number alone. -/
theorem integer_eq (b : Bytes) : integer b = Bytes.ofNat 2 (bitLength b.toNat) ++ Bytes.minimal b.toNat := by
  rw [integer, Bytes.stripZeros_eq_minimal]

/-- The number of an integer has no more bits than its field can tell. -/
def Writable (b : Bytes) : Prop := bitLength b.toNat ≤ 65535

instance : DecidablePred Writable := fun _ => Nat.decLe ..

theorem Writable.toNat_ofNat (h : Writable b) :
    Bytes.toNat (Bytes.ofNat 2 (bitLength b.toNat)) = bitLength b.toNat := by
  have hlt : bitLength b.toNat < 256 ^ 2 := Nat.lt_succ_of_le h
  rw [Bytes.toNat_ofNat, Nat.mod_eq_of_lt hlt]

/-- An integer in front of other bytes tells its number and where it ends. -/
theorem integer_append_inj (ha : Writable a) (hb : Writable b) (h : integer a ++ s = integer b ++ t) :
    a.toNat = b.toNat ∧ s = t := by
  rw [integer_eq, integer_eq, List.append_assoc, List.append_assoc] at h
  obtain ⟨hcount, hrest⟩ := List.append_inj h (by rw [Bytes.length_ofNat, Bytes.length_ofNat])
  have hbits : bitLength a.toNat = bitLength b.toNat := by
    rw [← ha.toNat_ofNat, hcount, hb.toNat_ofNat]
  have hwidth : (Bytes.minimal a.toNat).length = (Bytes.minimal b.toNat).length := by
    rw [Bytes.minimal, Bytes.minimal, Bytes.length_ofNat, Bytes.length_ofNat, width_eq, width_eq, hbits]
  obtain ⟨hdigits, htail⟩ := List.append_inj hrest hwidth
  exact ⟨by rw [← Bytes.toNat_minimal a.toNat, hdigits, Bytes.toNat_minimal], htail⟩

/-- A curve in front of other bytes can be told, and where it ends. -/
theorem curveField_append_inj {c c' : Curve} (h : curveField c ++ s = curveField c' ++ t) : c = c' ∧ s = t := by
  have hc : c = c' := by
    revert h
    cases c <;> cases c' <;> simp [curveField, Curve.oid]
  subst hc
  exact ⟨rfl, List.append_cancel_left h⟩

/-- The same when there may be no curve. -/
theorem curveField?_append_inj {c c' : Option Curve} (hsome : c.isSome = c'.isSome)
    (h : c.elim [] curveField ++ s = c'.elim [] curveField ++ t) : c = c' ∧ s = t := by
  cases c with
  | none =>
    obtain rfl : c' = none := by simpa using hsome.symm
    exact ⟨rfl, h⟩
  | some c =>
    obtain ⟨c', rfl⟩ : ∃ c'', c' = some c'' := Option.isSome_iff_exists.mp hsome.symm
    obtain ⟨rfl, hrest⟩ := curveField_append_inj h
    exact ⟨rfl, hrest⟩

/-! ## Keys -/

namespace PublicKey

/-- The curve of a key, if it has one. -/
def curve? : PublicKey → Option Curve
  | rsa .. => none
  | ecdsa curve _ => some curve
  | ecdh curve _ => some curve
  | eddsa _ => some .ed25519

/-- The integers of a key: modulus and exponent, or the point. -/
def integers : PublicKey → List Bytes
  | rsa modulus exponent => [modulus, exponent]
  | ecdsa _ point => [point]
  | ecdh _ point => [point]
  | eddsa point => [point]

/-- What follows the integers of a key with an algorithm. -/
def suffix (algorithm : UInt8) : Bytes := if algorithm = 18 then derivationField else []

/-- The key material is the curve, the integers, and what the algorithm demands. -/
theorem material_eq (k : PublicKey) :
    k.material = k.curve?.elim [] curveField ++ (k.integers.flatMap integer ++ suffix k.algorithm) := by
  cases k <;> simp [material, curve?, integers, suffix, algorithm]

/-- Keys with one algorithm have the same places to fill. -/
theorem shape_of_algorithm {k k' : PublicKey} (h : k.algorithm = k'.algorithm) :
    k.curve?.isSome = k'.curve?.isSome ∧ k.integers.length = k'.integers.length := by
  cases k <;> cases k' <;> simp_all [algorithm, curve?, integers]

end PublicKey

/-- Integers are written by their numbers alone. -/
theorem flatMap_integer_eq (xs : List Bytes) :
    xs.flatMap integer =
      (xs.map Bytes.toNat).flatMap fun n => Bytes.ofNat 2 (bitLength n) ++ Bytes.minimal n := by
  rw [List.flatMap_map]
  exact congrArg (xs.flatMap ·) (funext integer_eq)

/-- As many integers one after the other tell their numbers and where they end. -/
theorem flatMap_integer_append_inj {xs ys : List Bytes} (hlength : xs.length = ys.length) (hx : ∀ b ∈ xs, Writable b)
    (hy : ∀ b ∈ ys, Writable b) (h : xs.flatMap integer ++ s = ys.flatMap integer ++ t) :
    xs.map Bytes.toNat = ys.map Bytes.toNat ∧ s = t := by
  induction xs generalizing ys with
  | nil =>
    obtain rfl : ys = [] := List.eq_nil_of_length_eq_zero hlength.symm
    exact ⟨rfl, h⟩
  | cons x xs ih =>
    cases ys with
    | nil => cases hlength
    | cons y ys =>
      rw [List.flatMap_cons, List.flatMap_cons, List.append_assoc, List.append_assoc] at h
      obtain ⟨hxy, hrest⟩ := integer_append_inj (hx x (List.mem_cons_self ..)) (hy y (List.mem_cons_self ..)) h
      obtain ⟨hmap, htail⟩ := ih (Nat.succ.inj hlength) (fun b hb => hx b (List.mem_cons_of_mem _ hb))
        (fun b hb => hy b (List.mem_cons_of_mem _ hb)) hrest
      exact ⟨by rw [List.map_cons, List.map_cons, hxy, hmap], htail⟩

section Keys

variable {k k' : PublicKey} {created created' : UInt32}

/-- The material of two keys with one algorithm is the same bytes when curve and numbers are the same. -/
theorem material_eq_iff (ha : k.algorithm = k'.algorithm) (hk : ∀ b ∈ k.integers, Writable b)
    (hk' : ∀ b ∈ k'.integers, Writable b) :
    k.material = k'.material ↔
      k.curve? = k'.curve? ∧ k.integers.map Bytes.toNat = k'.integers.map Bytes.toNat := by
  obtain ⟨hsome, hlength⟩ := PublicKey.shape_of_algorithm ha
  rw [PublicKey.material_eq, PublicKey.material_eq, ← ha]
  constructor
  · intro h
    obtain ⟨hcurve, hrest⟩ := curveField?_append_inj hsome h
    exact ⟨hcurve, (flatMap_integer_append_inj hlength hk hk' hrest).1⟩
  · rintro ⟨hcurve, hnumbers⟩
    rw [hcurve, flatMap_integer_eq, flatMap_integer_eq, hnumbers]

/-- The body tells the time of creation, the algorithm and the material. -/
theorem body_eq_iff : k.body created = k'.body created' ↔
    created = created' ∧ k.algorithm = k'.algorithm ∧ k.material = k'.material := by
  constructor
  · intro h
    obtain ⟨htime, hrest⟩ := List.append_inj (List.cons.inj h).2 (by rw [Bytes.length_ofNat, Bytes.length_ofNat])
    have hcreated : created.toNat = created'.toNat := by
      have := congrArg Bytes.toNat htime
      rwa [Bytes.toNat_ofNat, Bytes.toNat_ofNat, Nat.mod_eq_of_lt created.toNat_lt,
        Nat.mod_eq_of_lt created'.toNat_lt] at this
    exact ⟨UInt32.toNat_inj.mp hcreated, List.cons.inj hrest⟩
  · rintro ⟨rfl, ha, hm⟩
    rw [PublicKey.body, PublicKey.body, ha, hm]

/-- The whole packet tells its body. -/
theorem preimage_eq_iff : preimage k created = preimage k' created' ↔ k.body created = k'.body created' := by
  constructor
  · intro h
    exact (List.append_inj (List.cons.inj h).2 (by rw [Bytes.length_ofNat, Bytes.length_ofNat])).2
  · intro h
    rw [preimage, preimage, h]

end Keys

/-- What is digested is faithful: two keys whose integers can be written, created at two times, are digested as the same
bytes exactly when the times, the algorithms, the curves and the numbers of the integers are the same, however many
leading zeros the integers have and however long the packets are. An integer is written as its exact number of bits,
which can be counted from the first byte of what follows, and its number in as few bytes as it needs. -/
theorem preimage_faithful :
    (∀ (k k' : PublicKey) (created created' : UInt32),
      (∀ b ∈ k.integers, Writable b) → (∀ b ∈ k'.integers, Writable b) →
      (preimage k created = preimage k' created' ↔
        created = created' ∧ k.algorithm = k'.algorithm ∧ k.curve? = k'.curve? ∧
          k.integers.map Bytes.toNat = k'.integers.map Bytes.toNat)) ∧
    ∀ b, Writable b → ∃ bits magnitude, integer b = bits ++ magnitude ∧
      bits = Bytes.ofNat 2 (countBits magnitude) ∧ (∀ i, i < Bytes.toNat bits ↔ 2 ^ i ≤ b.toNat) ∧
      Bytes.toNat magnitude = b.toNat ∧ magnitude.head? ≠ some 0 := by
  constructor
  · intro k k' created created' hk hk'
    rw [preimage_eq_iff, body_eq_iff]
    constructor
    · rintro ⟨hcreated, ha, hm⟩
      exact ⟨hcreated, ha, (material_eq_iff ha hk hk').mp hm⟩
    · rintro ⟨hcreated, ha, hm⟩
      exact ⟨hcreated, ha, (material_eq_iff ha hk hk').mpr hm⟩
  · intro b hb
    refine ⟨Bytes.ofNat 2 (bitLength b.toNat), b.stripZeros, rfl, ?_, ?_, Bytes.toNat_stripZeros b, ?_⟩
    · rw [countBits_stripZeros]
    · intro i
      rw [hb.toNat_ofNat, lt_bitLength_iff]
    · cases h : b.stripZeros with
      | nil => exact fun h => by cases h
      | cons x r => exact fun hzero => Bytes.head_stripZeros_ne_zero h (Option.some.inj hzero)

/-- An RSA key with leading zeros in its modulus and none in its exponent, and the other way round. -/
theorem preimage_faithful_zeros :
    (∀ b ∈ (PublicKey.rsa [0, 1, 0, 1] [3]).integers, Writable b) ∧
    (∀ b ∈ (PublicKey.rsa [1, 0, 1] [0, 3]).integers, Writable b) ∧
    preimage (.rsa [0, 1, 0, 1] [3]) 946731661 = preimage (.rsa [1, 0, 1] [0, 3]) 946731661 ∧
    preimage (.rsa [0, 1, 0, 1] [3]) 946731661 ≠ preimage (.rsa [1, 0, 1] [2]) 946731661 := by
  have hzeros : ∀ b ∈ (PublicKey.rsa [0, 1, 0, 1] [3]).integers, Writable b := by decide
  have hother : ∀ b ∈ (PublicKey.rsa [1, 0, 1] [0, 3]).integers, Writable b := by decide
  refine ⟨hzeros, hother, (preimage_faithful.1 _ _ _ _ hzeros hother).mpr (by decide), ?_⟩
  rw [ne_eq, preimage_faithful.1 _ _ _ _ hzeros (by decide)]
  decide

end SecurityKey.OpenPgp
