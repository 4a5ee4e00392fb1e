import SecurityKey.Proofs.Cbor.RoundTrip
import SecurityKey.Proofs.Cbor.Rounding

/-!
# Floats in the narrowest format

- a pattern is widened to a double of the same sign and number (`Format.sign_widen`, `Format.value_widen`), and every
  pattern is found again in the double it was widened to (`Format.narrow?_widen`);
- a double that some pattern is widened to is rounded to this pattern (`Format.IsNearest.eq_of_widen`);
- so rounding to the shorter formats in turn, and comparing, writes a double in the narrowest format that holds it
  (`encodeRounding_eq`, `encode_float_narrowest`).
-/

namespace SecurityKey.Cbor

namespace Format

variable {f : Format} {s e m d b r k : Nat}

/-- All numbers of a format are doubles, and all but zero are normal ones. -/
structure IsNarrow (f : Format) : Prop extends f.IsShort where
  normal : f.bias + f.fractionBits ≤ double.bias

theorem isNarrow_half : half.IsNarrow := ⟨isShort_half, by decide⟩

theorem isNarrow_single : single.IsNarrow := ⟨isShort_single, by decide⟩

theorem IsShort.maxExponent_eq (hf : f.IsShort) : f.maxExponent = 2 * f.bias + 1 := by
  have hpos := Nat.two_pow_pos (f.exponentBits - 1)
  have hexp : f.exponentBits = f.exponentBits - 1 + 1 := by
    have := hf.exponentBits_pos
    omega
  unfold maxExponent bias
  rw [hexp, Nat.pow_succ, Nat.add_sub_cancel]
  omega

/-- What there is to know of the exponents. -/
theorem IsNarrow.bounds (hf : f.IsNarrow) :
    f.maxExponent = 2 * f.bias + 1 ∧ f.bias + f.fractionBits ≤ double.bias ∧ f.fractionBits ≤ 52 ∧
      double.bias = 1023 ∧ double.maxExponent = 2047 :=
  ⟨hf.maxExponent_eq, hf.normal, hf.fractionBits_le, rfl, rfl⟩

/-! ## Patterns and the doubles they are widened to -/

/-- What a pattern is widened to: an infinity or a NaN, a zero, a normal number whose significand begins with the first
bit of a subnormal one, or a normal number with the same exponent. -/
inductive Widening (f : Format) (b : Nat) : (exponent fraction : Nat) → Prop
  | special (he : f.exponent b = f.maxExponent) :
    Widening f b double.maxExponent (f.fraction b * 2 ^ (52 - f.fractionBits))
  | zero (he : f.exponent b = 0) (hm : f.fraction b = 0) : Widening f b 0 0
  | subnormal (k : Nat) (he : f.exponent b = 0) (hlow : 2 ^ k ≤ f.fraction b) (hhigh : f.fraction b < 2 ^ (k + 1))
    (hk : k < f.fractionBits) :
    Widening f b (k + 1 + double.bias - f.bias - f.fractionBits) ((f.fraction b - 2 ^ k) * 2 ^ (52 - k))
  | normal (h0 : f.exponent b ≠ 0) (he : f.exponent b < f.maxExponent) :
    Widening f b (f.exponent b + double.bias - f.bias) (f.fraction b * 2 ^ (52 - f.fractionBits))

/-- A fraction with zeros behind it. -/
theorem mul_pow_lt {i : Nat} (hi : i ≤ 52) (hm : m < 2 ^ i) : m * 2 ^ (52 - i) < 2 ^ double.fractionBits := by
  have := Nat.mul_lt_mul_of_pos_right hm (Nat.two_pow_pos (52 - i))
  rwa [← Nat.pow_add, Nat.add_sub_cancel' hi] at this

/-- Infinities and NaNs keep their fractions. -/
theorem widen_special (he : f.exponent b = f.maxExponent) :
    f.widen b = double.pack (f.sign b) double.maxExponent (f.fraction b * 2 ^ (52 - f.fractionBits)) :=
  if_pos he

theorem exists_widening (hf : f.IsNarrow) (b : Nat) :
    ∃ e m, f.widen b = double.pack (f.sign b) e m ∧ e < 2 ^ double.exponentBits ∧ m < 2 ^ double.fractionBits ∧
      f.Widening b e m := by
  obtain ⟨hmax, hnormal, hwidth, hdouble, hspecial⟩ := hf.bounds
  have hbits : 2 ^ double.exponentBits = 2048 := rfl
  have hm := f.fraction_lt b
  have he : f.exponent b < 2 ^ f.exponentBits := Nat.mod_lt _ (Nat.two_pow_pos _)
  have hfraction := mul_pow_lt hwidth hm
  unfold widen
  simp only
  by_cases hexponent : f.exponent b = f.maxExponent
  · rw [if_pos hexponent]
    exact ⟨_, _, rfl, by omega, hfraction, .special hexponent⟩
  rw [if_neg hexponent]
  have hlt : f.exponent b < f.maxExponent := by
    unfold maxExponent at hexponent ⊢
    omega
  by_cases h0 : f.exponent b = 0
  · rw [if_pos h0]
    by_cases hzero : f.fraction b = 0
    · rw [if_pos hzero]
      exact ⟨_, _, rfl, by omega, Nat.two_pow_pos _, .zero h0 hzero⟩
    rw [if_neg hzero]
    have hlow : 2 ^ (f.fraction b).log2 ≤ f.fraction b := (Nat.le_log2 hzero).mp (Nat.le_refl _)
    have hhigh : f.fraction b < 2 ^ ((f.fraction b).log2 + 1) := Nat.lt_log2_self
    have hk : (f.fraction b).log2 < f.fractionBits := (Nat.log2_lt hzero).mpr hm
    refine ⟨_, _, rfl, by omega, mul_pow_lt (by omega) ?_, .subnormal _ h0 hlow hhigh hk⟩
    rw [Nat.pow_succ] at hhigh
    omega
  · rw [if_neg h0]
    exact ⟨_, _, rfl, by omega, hfraction, .normal h0 hlt⟩

theorem sign_widen (hf : f.IsNarrow) (b : Nat) : double.sign (f.widen b) = f.sign b := by
  obtain ⟨e, m, h, he, hm, -⟩ := exists_widening hf b
  rw [h, sign_pack (f.sign_lt b) he hm]

/-- A subnormal significand with its first bit in the place of the hidden one. -/
theorem normalised (hk : k ≤ 52) (hlow : 2 ^ k ≤ m) : 2 ^ 52 + (m - 2 ^ k) * 2 ^ (52 - k) = m * 2 ^ (52 - k) := by
  have htop : 2 ^ k * 2 ^ (52 - k) = 2 ^ 52 := by rw [← Nat.pow_add, Nat.add_sub_cancel' hk]
  rw [Nat.sub_mul, htop]
  have := Nat.mul_le_mul_right (2 ^ (52 - k)) hlow
  omega

/-- The magnitude of a double with a given significand. -/
theorem magnitude_double (h0 : e ≠ 0) (he : e < 2 ^ double.exponentBits) (hm : m < 2 ^ double.fractionBits) :
    double.magnitude (double.pack s e m) = (2 ^ 52 + m) * 2 ^ (e - 1) := by
  unfold magnitude
  simp only [exponent_pack he hm, fraction_pack hm, if_neg h0]
  exact Nat.mul_one _

/-- A finite number is widened to a double of the same magnitude. -/
theorem magnitude_widen (hf : f.IsNarrow) (hb : f.exponent b ≠ f.maxExponent) :
    double.magnitude (f.widen b) = f.magnitude b ∧ double.exponent (f.widen b) ≠ double.maxExponent := by
  obtain ⟨e, m, h, he, hm, hkind⟩ := exists_widening hf b
  obtain ⟨hmax, hnormal, hwidth, hdouble, hspecial⟩ := hf.bounds
  have hscale : f.scale = 1075 - (f.bias + f.fractionBits) := rfl
  rw [h, exponent_pack he hm]
  cases hkind with
  | special hexponent => exact absurd hexponent hb
  | zero hexponent hzero =>
    refine ⟨?_, by omega⟩
    unfold magnitude
    simp only [exponent_pack he hm, fraction_pack hm, hexponent, hzero, if_true, Nat.zero_mul]
  | subnormal k hexponent hlow hhigh hk =>
    refine ⟨?_, by omega⟩
    rw [magnitude_double (by omega) he hm, normalised (by omega) hlow, Nat.mul_assoc, ← Nat.pow_add]
    have hpower : 52 - k + (k + 1 + double.bias - f.bias - f.fractionBits - 1) = f.scale := by omega
    unfold magnitude
    simp only [hexponent, if_true, hpower]
  | normal h0 hlt =>
    refine ⟨?_, by omega⟩
    have htop : 2 ^ f.fractionBits * 2 ^ (52 - f.fractionBits) = 2 ^ 52 := by
      rw [← Nat.pow_add, Nat.add_sub_cancel' hwidth]
    have hpower : 52 - f.fractionBits + (f.exponent b + double.bias - f.bias - 1) = f.exponent b - 1 + f.scale := by
      omega
    rw [magnitude_double (by omega) he hm, ← htop, ← Nat.add_mul, Nat.mul_assoc, ← Nat.pow_add, hpower, Nat.pow_add,
      ← Nat.mul_assoc]
    unfold magnitude
    simp only [if_neg h0]

theorem value_widen (hf : f.IsNarrow) (hb : f.exponent b ≠ f.maxExponent) : double.value (f.widen b) = f.value b := by
  rw [value, value, sign_widen hf, (magnitude_widen hf hb).1]

/-- What the shorter pattern of a double is, by the parts of the double. -/
theorem narrow?_pack (hs : s < 2) (he : e < 2 ^ double.exponentBits) (hm : m < 2 ^ double.fractionBits) :
    f.narrow? (double.pack s e m) =
      if e = double.maxExponent then if m = 0 then some (f.pack s f.maxExponent 0) else none
      else if e = 0 then if m = 0 then some (f.pack s 0 0) else none
      else if e + f.bias ≤ double.bias then
        if f.subnormalShift e ≤ 52 ∧ (2 ^ 52 + m) % 2 ^ f.subnormalShift e = 0 then
          some (f.pack s 0 ((2 ^ 52 + m) / 2 ^ f.subnormalShift e))
        else none
      else if e + f.bias < double.bias + f.maxExponent then
        if m % 2 ^ (52 - f.fractionBits) = 0 then
          some (f.pack s (e + f.bias - double.bias) (m / 2 ^ (52 - f.fractionBits)))
        else none
      else none := by
  unfold narrow?
  simp only [sign_pack hs he hm, exponent_pack he hm, fraction_pack hm]
  rfl

/-- Every pattern but NaNs is found in the double it is widened to. -/
theorem narrow?_widen (hf : f.IsNarrow) (hb : b < 2 ^ (1 + f.exponentBits + f.fractionBits))
    (hnan : f.isNaN b = false) : f.narrow? (f.widen b) = some b := by
  obtain ⟨e, m, h, he, hm, hkind⟩ := exists_widening hf b
  have hs := f.sign_lt b
  obtain ⟨hmax, hnormal, hwidth, hdouble, hspecial⟩ := hf.bounds
  have hparts := pack_parts hb
  rw [h, narrow?_pack hs he hm]
  cases hkind with
  | special hexponent =>
    have hzero : f.fraction b = 0 := by
      unfold isNaN at hnan
      simpa [hexponent] using hnan
    rw [hexponent, hzero] at hparts
    rw [if_pos rfl, hzero, Nat.zero_mul, if_pos rfl, hparts]
  | zero hexponent hzero =>
    rw [hexponent, hzero] at hparts
    rw [if_neg (by omega), if_pos rfl, if_pos rfl, hparts]
  | subnormal k hexponent hlow hhigh hk =>
    rw [hexponent] at hparts
    have hshift : f.subnormalShift (k + 1 + double.bias - f.bias - f.fractionBits) = 52 - k := by
      unfold subnormalShift
      omega
    rw [if_neg (by omega), if_neg (by omega), if_pos (by omega), hshift, normalised (by omega) hlow, Nat.mul_mod_left,
      if_pos ⟨by omega, rfl⟩, Nat.mul_div_cancel _ (Nat.two_pow_pos _), hparts]
  | normal h0 hlt =>
    have hback : f.exponent b + double.bias - f.bias + f.bias - double.bias = f.exponent b := by omega
    rw [if_neg (by omega), if_neg (by omega), if_neg (by omega), if_pos (by omega), Nat.mul_mod_left, if_pos rfl, hback,
      Nat.mul_div_cancel _ (Nat.two_pow_pos _), hparts]

/-- A NaN is widened to a NaN. -/
theorem isNaN_widen (hf : f.IsNarrow) (h : f.isNaN b = true) : double.isNaN (f.widen b) = true := by
  obtain ⟨he, hm⟩ : f.exponent b = f.maxExponent ∧ f.fraction b ≠ 0 := by simpa [isNaN] using h
  have hfraction : f.fraction b * 2 ^ (52 - f.fractionBits) < 2 ^ double.fractionBits :=
    mul_pow_lt hf.fractionBits_le (f.fraction_lt b)
  have hpos := Nat.mul_pos (Nat.pos_of_ne_zero hm) (Nat.two_pow_pos (52 - f.fractionBits))
  rw [widen_special he, isNaN, exponent_pack (by decide) hfraction, fraction_pack hfraction]
  simp [Nat.ne_of_gt hpos]

/-- The shorter pattern of a double is the one that is widened to it. -/
theorem narrow?_eq_some_iff (hf : f.IsNarrow) (hd : d < 2 ^ 64) (hnan : double.isNaN d = false) :
    f.narrow? d = some b ↔ b < 2 ^ (1 + f.exponentBits + f.fractionBits) ∧ f.widen b = d := by
  constructor
  · intro h
    exact (widen_of_narrow? hf.toIsShort hd h).symm
  · rintro ⟨hb, rfl⟩
    refine narrow?_widen hf hb ?_
    cases hb' : f.isNaN b with
    | false => rfl
    | true => rw [isNaN_widen hf hb'] at hnan; cases hnan

/-- A double is the number of a pattern. -/
def Holds (f : Format) (d : Nat) : Prop := ∃ b < 2 ^ (1 + f.exponentBits + f.fractionBits), f.widen b = d

theorem holds_iff (hf : f.IsNarrow) (hd : d < 2 ^ 64) (hnan : double.isNaN d = false) :
    f.Holds d ↔ ∃ b, f.narrow? d = some b :=
  exists_congr fun _ => (narrow?_eq_some_iff hf hd hnan).symm

/-! ## Rounding and comparing -/

/-- A number is rounded to itself. -/
theorem IsNearest.eq_of_widen (h : f.IsNearest d r) (hf : f.IsNarrow) (hd : d < 2 ^ 64) (hnan : double.isNaN d = false)
    (hb : b < 2 ^ (1 + f.exponentBits + f.fractionBits)) (hwiden : f.widen b = d) : r = b := by
  by_cases hinf : double.exponent d = double.maxExponent
  · have hzero : double.fraction d = 0 := by
      unfold isNaN at hnan
      simpa [hinf] using hnan
    have hnarrow : f.narrow? d = some (f.pack (double.sign d) f.maxExponent 0) := by
      unfold narrow?
      simp only [hinf, hzero, if_true]
    rw [(narrow?_eq_some_iff hf hd hnan).mpr ⟨hb, hwiden⟩] at hnarrow
    rw [h.infinite hinf, Option.some.inj hnarrow]
  · have hexponent : f.exponent b ≠ f.maxExponent := by
      intro he
      have hfraction := mul_pow_lt hf.fractionBits_le (f.fraction_lt b)
      rw [← hwiden, widen_special he, exponent_pack (by decide) hfraction] at hinf
      exact hinf rfl
    have hnumber : f.isNaN b = false := by simp [isNaN, hexponent]
    have hsign : f.sign r = f.sign b := by rw [h.sign, ← hwiden, sign_widen hf]
    -- the distance to the number itself is zero
    have hvalue : f.value r = f.value b := by
      have hnearest := h.nearest hinf b hb hnumber
      rw [← hwiden, value_widen hf hexponent] at hnearest
      omega
    have hmagnitude : f.magnitude r = f.magnitude b := by
      unfold value at hvalue
      rw [hsign] at hvalue
      split at hvalue <;> omega
    rw [magnitude_eq, magnitude_eq f b] at hmagnitude
    exact eq_of_place h.pattern hb hsign (units_inj (Nat.eq_of_mul_eq_mul_right (Nat.two_pow_pos _) hmagnitude))

/-- Doubles are equal as numbers: a NaN is not equal to anything, and the zeros of both signs are equal. -/
def equalNumbers (a b : Nat) : Bool :=
  !double.isNaN a && !double.isNaN b && (a == b || (a % 2 ^ 63 == 0 && b % 2 ^ 63 == 0))

theorem eq_of_equalNumbers {a b : Nat} (ha : a < 2 ^ 64) (hb : b < 2 ^ 64) (hs : double.sign a = double.sign b)
    (h : equalNumbers a b = true) : a = b := by
  have hsign : a / 2 ^ 63 % 2 = b / 2 ^ 63 % 2 := hs
  simp only [equalNumbers, Bool.and_eq_true, Bool.or_eq_true, beq_iff_eq] at h
  omega

theorem equalNumbers_self (h : double.isNaN d = false) : equalNumbers d d = true := by
  simp [equalNumbers, h]

/-- What is rounded is compared equal exactly when there is a shorter pattern, which it is then. -/
theorem IsNearest.compare (h : f.IsNearest d r) (hf : f.IsNarrow) (hd : d < 2 ^ 64) (hnan : double.isNaN d = false) :
    (if equalNumbers (f.widen r) d then some r else none) = f.narrow? d := by
  cases hnarrow : f.narrow? d with
  | some b =>
    obtain ⟨hb, hwiden⟩ := (narrow?_eq_some_iff hf hd hnan).mp hnarrow
    obtain rfl : r = b := h.eq_of_widen hf hd hnan hb hwiden
    rw [hwiden, if_pos (equalNumbers_self hnan)]
  | none =>
    refine if_neg fun hequal => ?_
    obtain ⟨e, m, hpack, he, hm, -⟩ := exists_widening hf r
    have hlt : f.widen r < 2 ^ 64 := by
      rw [hpack]
      exact pack_lt (f.sign_lt r) he hm
    have hwiden := eq_of_equalNumbers hlt hd ((sign_widen hf r).trans h.sign) hequal
    rw [(narrow?_eq_some_iff hf hd hnan).mpr ⟨h.pattern, hwiden⟩] at hnarrow
    cases hnarrow

end Format

/-- A double is rounded to the shorter formats in turn, and written in the first where the rounded number is equal to
it. -/
def encodeRounding (toHalf toSingle : Nat → Nat) (bits : UInt64) : Bytes :=
  let d := bits.toNat
  if Format.double.isNaN d then [0xf9, 0x7e, 0x00]
  else if Format.equalNumbers (Format.half.widen (toHalf d)) d then 0xf9 :: Bytes.ofNat 2 (toHalf d)
  else if Format.equalNumbers (Format.single.widen (toSingle d)) d then 0xfa :: Bytes.ofNat 4 (toSingle d)
  else 0xfb :: Bytes.ofNat 8 d

variable {toHalf toSingle : Nat → Nat}

/-- Rounding and comparing writes what there is a shorter pattern for in the shorter pattern. -/
theorem encodeRounding_eq (hhalf : Format.half.RoundsToNearest toHalf)
    (hsingle : Format.single.RoundsToNearest toSingle) (bits : UInt64) :
    encodeRounding toHalf toSingle bits = encodeFloat bits := by
  unfold encodeRounding encodeFloat
  simp only
  by_cases hnan : Format.double.isNaN bits.toNat = true
  · rw [if_pos hnan, if_pos hnan]
  rw [if_neg hnan, if_neg hnan]
  rw [Bool.not_eq_true] at hnan
  rw [← (hhalf _ hnan).compare Format.isNarrow_half bits.toNat_lt hnan,
    ← (hsingle _ hnan).compare Format.isNarrow_single bits.toNat_lt hnan]
  by_cases heqHalf : Format.equalNumbers (Format.half.widen (toHalf bits.toNat)) bits.toNat = true
  · rw [if_pos heqHalf, if_pos heqHalf]
  rw [if_neg heqHalf, if_neg heqHalf]
  by_cases heqSingle : Format.equalNumbers (Format.single.widen (toSingle bits.toNat)) bits.toNat = true
  · rw [if_pos heqSingle, if_pos heqSingle]
  · rw [if_neg heqSingle, if_neg heqSingle]

/-- What is written of a double, by the patterns that are widened to it. -/
theorem encodeFloat_cases {bits : UInt64} (hnan : Format.double.isNaN bits.toNat = false) :
    (Format.half.Holds bits.toNat ∧ ∃ b, encodeFloat bits = 0xf9 :: Bytes.ofNat 2 b) ∨
    (¬ Format.half.Holds bits.toNat ∧ Format.single.Holds bits.toNat ∧
      ∃ b, encodeFloat bits = 0xfa :: Bytes.ofNat 4 b) ∨
    (¬ Format.half.Holds bits.toNat ∧ ¬ Format.single.Holds bits.toNat ∧
      encodeFloat bits = 0xfb :: Bytes.ofNat 8 bits.toNat) := by
  rw [Format.holds_iff Format.isNarrow_half bits.toNat_lt hnan,
    Format.holds_iff Format.isNarrow_single bits.toNat_lt hnan]
  unfold encodeFloat
  simp only
  rw [if_neg (Bool.eq_false_iff.mp hnan)]
  cases Format.half.narrow? bits.toNat with
  | some b => exact .inl ⟨⟨b, rfl⟩, b, rfl⟩
  | none =>
    cases Format.single.narrow? bits.toNat with
    | some b => exact .inr (.inl ⟨by simp, ⟨b, rfl⟩, b, rfl⟩)
    | none => exact .inr (.inr ⟨by simp, by simp, rfl⟩)

/-- Floats are written in the narrowest format: whatever functions round to nearest, rounding to a half and to a single
in turn and comparing writes every double but NaNs as a half exactly if some half is widened to it, otherwise as a
single exactly if some single is, and otherwise as it is; and what is written is decoded to the same 64 bits. -/
theorem encode_float_narrowest (hhalf : Format.half.RoundsToNearest toHalf)
    (hsingle : Format.single.RoundsToNearest toSingle) (bits : UInt64)
    (hnan : Format.double.isNaN bits.toNat = false) :
    Value.encode (.float bits) = encodeRounding toHalf toSingle bits ∧
    ((∃ b, Value.encode (.float bits) = 0xf9 :: Bytes.ofNat 2 b) ↔ Format.half.Holds bits.toNat) ∧
    ((∃ b, Value.encode (.float bits) = 0xfa :: Bytes.ofNat 4 b) ↔
      ¬ Format.half.Holds bits.toNat ∧ Format.single.Holds bits.toNat) ∧
    (Value.encode (.float bits) = 0xfb :: Bytes.ofNat 8 bits.toNat ↔
      ¬ Format.half.Holds bits.toNat ∧ ¬ Format.single.Holds bits.toNat) ∧
    decode (Value.encode (.float bits)) = .ok (.float bits) := by
  have hdecode : decode (Value.encode (.float bits)) = .ok (Value.canon (.float bits)) :=
    decode_of_need_le (Nat.two_pow_pos 64) (show 1 ≤ 32 by decide)
  have hcanon : Value.canon (.float bits) = .float bits := by
    rw [Value.canon, if_neg (Bool.eq_false_iff.mp hnan)]
  rw [hcanon] at hdecode
  refine ⟨?rounding, ?half, ?single, ?double, hdecode⟩
  case rounding => rw [Value.encode, encodeRounding_eq hhalf hsingle]
  -- the first byte tells the three ways of writing apart
  all_goals
    rw [Value.encode]
    rcases encodeFloat_cases hnan with ⟨hh, b, hb⟩ | ⟨hh, hs, b, hb⟩ | ⟨hh, hs, hb⟩
  case half.inl => exact ⟨fun _ => hh, fun _ => ⟨b, hb⟩⟩
  case single.inr.inl => exact ⟨fun _ => ⟨hh, hs⟩, fun _ => ⟨b, hb⟩⟩
  all_goals
    rw [hb]
    simp [*]

/-- The smallest subnormal half, with functions that round to nearest. -/
theorem encode_float_narrowest_subnormal :
    Format.half.RoundsToNearest Format.half.round ∧ Format.single.RoundsToNearest Format.single.round ∧
    Format.double.isNaN (0x3e70000000000000 : UInt64).toNat = false ∧
    (∃ b, Value.encode (.float 0x3e70000000000000) = 0xf9 :: Bytes.ofNat 2 b) ∧
    decode (Value.encode (.float 0x3e70000000000000)) = .ok (.float 0x3e70000000000000) := by
  have hhalf := Format.half.roundsToNearest_round (by decide)
  have hsingle := Format.single.roundsToNearest_round (by decide)
  have hnan : Format.double.isNaN (0x3e70000000000000 : UInt64).toNat = false := by decide
  obtain ⟨-, hwritten, -, -, hdecode⟩ := encode_float_narrowest hhalf hsingle 0x3e70000000000000 hnan
  exact ⟨hhalf, hsingle, hnan, hwritten.mpr ⟨1, by decide, by decide⟩, hdecode⟩

end SecurityKey.Cbor
