import Mathlib.Algebra.Group.Nat.Defs
import SecurityKey.Cbor.Float

/-!
# Floats and their shorter forms

- a pattern is packed from its sign, exponent and fraction (`Format.pack_parts`), and they are found in it again
  (`Format.sign_pack`, `Format.exponent_pack`, `Format.fraction_pack`);
- the shorter pattern of a double, when there is one, denotes the double (`Format.widen_of_narrow?`).
-/

namespace SecurityKey.Cbor.Format

variable {f : Format} {s e m d b : Nat}

/-! ## Parts of patterns -/

theorem fraction_pack (hm : m < 2 ^ f.fractionBits) : f.fraction (f.pack s e m) = m := by
  rw [fraction, pack, Nat.mul_comm, Nat.mul_add_mod, Nat.mod_eq_of_lt hm]

/-- A pattern without its fraction. -/
theorem pack_div (hm : m < 2 ^ f.fractionBits) :
    f.pack s e m / 2 ^ f.fractionBits = s * 2 ^ f.exponentBits + e := by
  rw [pack, Nat.mul_comm, Nat.mul_add_div (Nat.two_pow_pos _), Nat.div_eq_of_lt hm, Nat.add_zero]

theorem exponent_pack (he : e < 2 ^ f.exponentBits) (hm : m < 2 ^ f.fractionBits) :
    f.exponent (f.pack s e m) = e := by
  rw [exponent, pack_div hm, Nat.mul_comm, Nat.mul_add_mod, Nat.mod_eq_of_lt he]

theorem sign_pack (hs : s < 2) (he : e < 2 ^ f.exponentBits) (hm : m < 2 ^ f.fractionBits) :
    f.sign (f.pack s e m) = s := by
  rw [sign, Nat.add_comm, Nat.pow_add, ← Nat.div_div_eq_div_mul, pack_div hm, Nat.mul_comm,
    Nat.mul_add_div (Nat.two_pow_pos _), Nat.div_eq_of_lt he, Nat.add_zero, Nat.mod_eq_of_lt hs]

/-- A pattern has as many bits as its parts. -/
theorem pack_lt (hs : s < 2) (he : e < 2 ^ f.exponentBits) (hm : m < 2 ^ f.fractionBits) :
    f.pack s e m < 2 ^ (1 + f.exponentBits + f.fractionBits) := by
  have hx : s * 2 ^ f.exponentBits + e + 1 ≤ 2 * 2 ^ f.exponentBits := by
    have : s * 2 ^ f.exponentBits ≤ 1 * 2 ^ f.exponentBits := Nat.mul_le_mul_right _ (by omega)
    omega
  have hp := Nat.mul_le_mul_right (2 ^ f.fractionBits) hx
  rw [Nat.add_mul, Nat.one_mul] at hp
  rw [pack, Nat.pow_add, Nat.pow_add, Nat.pow_one]
  omega

theorem fraction_lt (f : Format) (d : Nat) : f.fraction d < 2 ^ f.fractionBits := Nat.mod_lt _ (Nat.two_pow_pos _)

theorem sign_lt (f : Format) (d : Nat) : f.sign d < 2 := Nat.mod_lt _ (by decide)

/-- A pattern is packed from its parts. -/
theorem pack_parts (hd : d < 2 ^ (1 + f.exponentBits + f.fractionBits)) :
    f.pack (f.sign d) (f.exponent d) (f.fraction d) = d := by
  have hs : f.sign d = d / 2 ^ f.fractionBits / 2 ^ f.exponentBits := by
    rw [sign, Nat.add_comm, Nat.pow_add, ← Nat.div_div_eq_div_mul]
    apply Nat.mod_eq_of_lt
    rw [Nat.div_div_eq_div_mul]
    apply Nat.div_lt_of_lt_mul
    rw [← Nat.pow_add, ← Nat.pow_succ]
    have he : (f.fractionBits + f.exponentBits).succ = 1 + f.exponentBits + f.fractionBits := by omega
    rwa [he]
  rw [pack, hs, exponent, fraction, Nat.div_add_mod', Nat.div_add_mod']

/-! ## Widening by kind -/

section Widening

variable (hs : s < 2) (hm : m < 2 ^ f.fractionBits)

include hs hm

/-- An infinity or a NaN. -/
theorem widen_pack_maxExponent :
    f.widen (f.pack s f.maxExponent m) = double.pack s double.maxExponent (m * 2 ^ (52 - f.fractionBits)) := by
  have he : f.maxExponent < 2 ^ f.exponentBits := Nat.sub_lt (Nat.two_pow_pos _) Nat.one_pos
  simp only [widen, sign_pack hs he hm, exponent_pack he hm, fraction_pack hm, if_true]

/-- A normal number. -/
theorem widen_pack_normal (he : e < f.maxExponent) (h0 : e ≠ 0) :
    f.widen (f.pack s e m) =
      double.pack s (e + double.bias - f.bias) (m * 2 ^ (52 - f.fractionBits)) := by
  have he' : e < 2 ^ f.exponentBits := Nat.lt_of_lt_of_le he (Nat.sub_le ..)
  simp only [widen, sign_pack hs he' hm, exponent_pack he' hm, fraction_pack hm, if_neg (Nat.ne_of_lt he), if_neg h0]

/-- A zero or a subnormal number. -/
theorem widen_pack_zero (hf : 0 < f.maxExponent) :
    f.widen (f.pack s 0 m) = if m = 0 then double.pack s 0 0
      else double.pack s (m.log2 + 1 + double.bias - f.bias - f.fractionBits)
        ((m - 2 ^ m.log2) * 2 ^ (52 - m.log2)) := by
  have he : 0 < 2 ^ f.exponentBits := Nat.two_pow_pos _
  simp only [widen, sign_pack hs he hm, exponent_pack he hm, fraction_pack hm, if_neg (Nat.ne_of_lt hf), if_true]

end Widening

/-! ## Shorter forms -/

/-- All numbers of a format are doubles. -/
structure IsShort (f : Format) : Prop where
  exponentBits_pos : 0 < f.exponentBits
  exponentBits_le : f.exponentBits ≤ double.exponentBits
  fractionBits_le : f.fractionBits ≤ double.fractionBits

theorem isShort_half : half.IsShort := ⟨by decide, by decide, by decide⟩

theorem isShort_single : single.IsShort := ⟨by decide, by decide, by decide⟩

theorem IsShort.maxExponent_pos (hf : f.IsShort) : 0 < f.maxExponent := by
  have := Nat.pow_le_pow_right (Nat.zero_lt_two) hf.exponentBits_pos
  unfold maxExponent
  omega

theorem IsShort.bias_le (hf : f.IsShort) : f.bias ≤ double.bias := by
  have := Nat.pow_le_pow_right (Nat.zero_lt_two) (Nat.sub_le_sub_right hf.exponentBits_le 1)
  unfold bias
  omega

/-- A significand from which only zeros are shifted out: its leading bit, and what is left of it. -/
theorem log2_shifted {n : Nat} (hm : m < 2 ^ 52) (hn : n ≤ 52) (h : (2 ^ 52 + m) % 2 ^ n = 0) :
    ((2 ^ 52 + m) / 2 ^ n).log2 = 52 - n ∧ ((2 ^ 52 + m) / 2 ^ n - 2 ^ (52 - n)) * 2 ^ n = m ∧
      (2 ^ 52 + m) / 2 ^ n < 2 ^ (53 - n) ∧ (2 ^ 52 + m) / 2 ^ n ≠ 0 := by
  have hq : (2 ^ 52 + m) / 2 ^ n * 2 ^ n = 2 ^ 52 + m := Nat.div_mul_cancel (Nat.dvd_of_mod_eq_zero h)
  have htop : 2 ^ (52 - n) * 2 ^ n = 2 ^ 52 := by rw [← Nat.pow_add, Nat.sub_add_cancel hn]
  have hnext : 2 ^ (53 - n) * 2 ^ n = 2 ^ 53 := by rw [← Nat.pow_add, Nat.sub_add_cancel (by omega)]
  have hge : 2 ^ (52 - n) ≤ (2 ^ 52 + m) / 2 ^ n := by
    rw [Nat.le_div_iff_mul_le (Nat.two_pow_pos _), htop]
    exact Nat.le_add_right ..
  have hlt : (2 ^ 52 + m) / 2 ^ n < 2 ^ (53 - n) := by
    rw [Nat.div_lt_iff_lt_mul (Nat.two_pow_pos _), hnext]
    omega
  have hne : (2 ^ 52 + m) / 2 ^ n ≠ 0 := by
    have := Nat.two_pow_pos (52 - n)
    omega
  refine ⟨?_, ?_, hlt, hne⟩
  · have hsucc : 53 - n = 52 - n + 1 := by omega
    rw [hsucc] at hlt
    exact (Nat.log2_eq_iff hne).mpr ⟨hge, hlt⟩
  · rw [Nat.sub_mul, hq, htop, Nat.add_sub_cancel_left]

/-- How far the significand of a double is shifted where the shorter number is subnormal. -/
def subnormalShift (f : Format) (e : Nat) : Nat := 52 - f.fractionBits + (double.bias + 1 - f.bias - e)

/-- What a double is that has a shorter pattern: infinite, zero, subnormal in the shorter format, or normal. -/
theorem narrow?_cases (h : f.narrow? d = some b) :
    double.exponent d = double.maxExponent ∧ double.fraction d = 0 ∧ b = f.pack (double.sign d) f.maxExponent 0 ∨
    double.exponent d = 0 ∧ double.fraction d = 0 ∧ b = f.pack (double.sign d) 0 0 ∨
    (double.exponent d ≠ 0 ∧ double.exponent d + f.bias ≤ double.bias ∧
      f.subnormalShift (double.exponent d) ≤ 52 ∧
      (2 ^ 52 + double.fraction d) % 2 ^ f.subnormalShift (double.exponent d) = 0 ∧
      b = f.pack (double.sign d) 0 ((2 ^ 52 + double.fraction d) / 2 ^ f.subnormalShift (double.exponent d))) ∨
    (double.bias < double.exponent d + f.bias ∧ double.exponent d + f.bias < double.bias + f.maxExponent ∧
      double.fraction d % 2 ^ (52 - f.fractionBits) = 0 ∧
      b = f.pack (double.sign d) (double.exponent d + f.bias - double.bias)
        (double.fraction d / 2 ^ (52 - f.fractionBits))) := by
  unfold narrow? at h
  simp only at h
  split at h
  · split at h
    · rename_i he hm
      exact .inl ⟨he, hm, (Option.some.inj h).symm⟩
    · cases h
  split at h
  · split at h
    · rename_i he hm
      exact .inr (.inl ⟨he, hm, (Option.some.inj h).symm⟩)
    · cases h
  split at h
  · split at h
    · rename_i h0 hsub hshift
      exact .inr (.inr (.inl ⟨h0, hsub, hshift.1, hshift.2, (Option.some.inj h).symm⟩))
    · cases h
  split at h
  · split at h
    · rename_i hsub hnormal hm
      exact .inr (.inr (.inr ⟨Nat.lt_of_not_le hsub, hnormal, hm, (Option.some.inj h).symm⟩))
    · cases h
  · cases h

/-- The shorter pattern of a double denotes it. -/
theorem widen_of_narrow? (hf : f.IsShort) (hd : d < 2 ^ 64) (h : f.narrow? d = some b) :
    f.widen b = d ∧ b < 2 ^ (1 + f.exponentBits + f.fractionBits) := by
  have hparts := pack_parts (f := double) hd
  have hs := double.sign_lt d
  have hm := double.fraction_lt d
  have hcases := narrow?_cases h
  generalize double.sign d = s at *
  generalize double.exponent d = e at *
  generalize double.fraction d = m at *
  have hpos := hf.maxExponent_pos
  have hbias := hf.bias_le
  have hfraction : f.fractionBits ≤ 52 := hf.fractionBits_le
  have hmax : f.maxExponent < 2 ^ f.exponentBits := Nat.sub_lt (Nat.two_pow_pos _) Nat.one_pos
  have hzero : 0 < 2 ^ f.fractionBits := Nat.two_pow_pos _
  rw [← hparts]
  rcases hcases with ⟨he, rfl, rfl⟩ | ⟨rfl, rfl, rfl⟩ | ⟨-, hsub, hshift, hmod, rfl⟩ | ⟨hsub, hnormal, hmod, rfl⟩
  · refine ⟨?_, pack_lt hs hmax hzero⟩
    rw [widen_pack_maxExponent hs hzero, Nat.zero_mul, he]
  · refine ⟨?_, pack_lt hs (Nat.two_pow_pos _) hzero⟩
    rw [widen_pack_zero hs hzero hpos, if_pos rfl]
  · obtain ⟨hlog, hrest, hlt, hne⟩ := log2_shifted hm hshift hmod
    have hlt' : (2 ^ 52 + m) / 2 ^ f.subnormalShift e < 2 ^ f.fractionBits := by
      refine Nat.lt_of_lt_of_le hlt (Nat.pow_le_pow_right Nat.zero_lt_two ?_)
      unfold subnormalShift
      omega
    refine ⟨?_, pack_lt hs (Nat.two_pow_pos _) hlt'⟩
    have hback : 52 - (52 - f.subnormalShift e) = f.subnormalShift e := by omega
    have he : 52 - f.subnormalShift e + 1 + double.bias - f.bias - f.fractionBits = e := by
      unfold subnormalShift at hshift ⊢
      omega
    rw [widen_pack_zero hs hlt' hpos, if_neg hne, hlog, hback, hrest, he]
  · have hq : m / 2 ^ (52 - f.fractionBits) * 2 ^ (52 - f.fractionBits) = m :=
      Nat.div_mul_cancel (Nat.dvd_of_mod_eq_zero hmod)
    have hlt : m / 2 ^ (52 - f.fractionBits) < 2 ^ f.fractionBits := by
      rw [Nat.div_lt_iff_lt_mul (Nat.two_pow_pos _), ← Nat.pow_add, Nat.add_sub_cancel' hfraction]
      exact hm
    refine ⟨?_, pack_lt hs (by omega) hlt⟩
    have he : e + f.bias - double.bias + double.bias - f.bias = e := by omega
    rw [widen_pack_normal hs hlt (by omega) (by omega), hq, he]

end SecurityKey.Cbor.Format
