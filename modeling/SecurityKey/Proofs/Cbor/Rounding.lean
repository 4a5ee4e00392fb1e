import SecurityKey.Proofs.Cbor.Float

/-!
# Rounding to shorter formats

Magnitudes are counted in the smallest positive double, so that the numbers of all formats are whole (`Format.value`).

- the patterns of a format without their signs are numbered in the order of their magnitudes (`Format.units_lt`);
- `Format.IsNearest d r`: the pattern denotes the number of a format that is nearest to a double;
- `Format.round` finds such a pattern (`Format.roundsToNearest_round`).
-/

namespace SecurityKey.Cbor.Format

variable {f : Format} {s e m d b r n n' j k x : Nat}

/-! ## The numbers of patterns -/

/-- How many doublings lead from the smallest positive double to the smallest positive number of the format. -/
def scale (f : Format) : Nat := double.bias + double.fractionBits - (f.bias + f.fractionBits)

/-- The magnitude of a pattern. An infinity counts as the number that would follow the largest one. -/
def magnitude (f : Format) (bits : Nat) : Nat :=
  let e := f.exponent bits
  let m := f.fraction bits
  (if e = 0 then m else (2 ^ f.fractionBits + m) * 2 ^ (e - 1)) * 2 ^ f.scale

/-- The number of a pattern. -/
def value (f : Format) (bits : Nat) : Int :=
  if f.sign bits = 0 then f.magnitude bits else -f.magnitude bits

/-! ## The order of magnitudes -/

/-- The place of a pattern without its sign. -/
def place (f : Format) (bits : Nat) : Nat := f.exponent bits * 2 ^ f.fractionBits + f.fraction bits

/-- The magnitude at a place, counted in the smallest positive number of the format. -/
def units (f : Format) (n : Nat) : Nat :=
  if n / 2 ^ f.fractionBits = 0 then n % 2 ^ f.fractionBits
  else (2 ^ f.fractionBits + n % 2 ^ f.fractionBits) * 2 ^ (n / 2 ^ f.fractionBits - 1)

theorem units_pack (hm : m < 2 ^ f.fractionBits) : f.units (e * 2 ^ f.fractionBits + m) =
    if e = 0 then m else (2 ^ f.fractionBits + m) * 2 ^ (e - 1) := by
  have hdiv : (e * 2 ^ f.fractionBits + m) / 2 ^ f.fractionBits = e := by
    rw [Nat.mul_comm, Nat.mul_add_div (Nat.two_pow_pos _), Nat.div_eq_of_lt hm, Nat.add_zero]
  have hmod : (e * 2 ^ f.fractionBits + m) % 2 ^ f.fractionBits = m := by
    rw [Nat.mul_comm, Nat.mul_add_mod, Nat.mod_eq_of_lt hm]
  rw [units, hdiv, hmod]

theorem magnitude_eq (f : Format) (b : Nat) : f.magnitude b = f.units (f.place b) * 2 ^ f.scale := by
  rw [place, units_pack (f.fraction_lt b)]
  rfl

/-- Significands count in steps that double with the exponent, up to the first of the next exponent. -/
theorem units_eq (hk : k = 0 ∨ 2 ^ f.fractionBits ≤ j) (hj : j ≤ 2 * 2 ^ f.fractionBits) :
    f.units (k * 2 ^ f.fractionBits + j) = j * 2 ^ k := by
  have hpos := Nat.two_pow_pos f.fractionBits
  by_cases hsmall : j < 2 ^ f.fractionBits
  · obtain rfl : k = 0 := by omega
    rw [units_pack hsmall, if_pos rfl, Nat.pow_zero, Nat.mul_one]
  by_cases hlast : j = 2 * 2 ^ f.fractionBits
  · have hplace : k * 2 ^ f.fractionBits + j = (k + 2) * 2 ^ f.fractionBits + 0 := by
      rw [hlast, Nat.add_mul, Nat.add_zero]
    rw [hplace, units_pack hpos, if_neg (by omega), hlast, Nat.add_zero, Nat.mul_comm 2, Nat.mul_assoc,
      ← Nat.pow_succ']
    rfl
  · have hplace : k * 2 ^ f.fractionBits + j = (k + 1) * 2 ^ f.fractionBits + (j - 2 ^ f.fractionBits) := by
      rw [Nat.add_mul]
      omega
    have hj' : 2 ^ f.fractionBits + (j - 2 ^ f.fractionBits) = j := by omega
    rw [hplace, units_pack (by omega), if_neg (Nat.succ_ne_zero k), hj', Nat.add_sub_cancel]

/-- Every place has an exponent and a significand. -/
theorem exists_place (f : Format) (n : Nat) :
    ∃ k j, n = k * 2 ^ f.fractionBits + j ∧ (k = 0 ∨ 2 ^ f.fractionBits ≤ j) ∧ j < 2 * 2 ^ f.fractionBits := by
  have hpos := Nat.two_pow_pos f.fractionBits
  have hparts := Nat.div_add_mod' n (2 ^ f.fractionBits)
  have hlt := Nat.mod_lt n hpos
  generalize n % 2 ^ f.fractionBits = m at hparts hlt
  cases hq : n / 2 ^ f.fractionBits with
  | zero =>
    rw [hq, Nat.zero_mul] at hparts
    exact ⟨0, m, by omega, .inl rfl, by omega⟩
  | succ k =>
    rw [hq, Nat.succ_mul] at hparts
    exact ⟨k, 2 ^ f.fractionBits + m, by omega, .inr (by omega), by omega⟩

theorem units_lt_succ (f : Format) (n : Nat) : f.units n < f.units (n + 1) := by
  obtain ⟨k, j, rfl, hk, hj⟩ := f.exists_place n
  rw [units_eq hk (by omega), Nat.add_assoc, units_eq (hk.imp_right (by omega)) (by omega), Nat.succ_mul]
  have := Nat.two_pow_pos k
  omega

/-- Magnitudes grow with their places. -/
theorem units_lt (h : n < n') : f.units n < f.units n' := by
  induction h with
  | refl => exact units_lt_succ f n
  | step _ ih => exact Nat.lt_trans ih (units_lt_succ f _)

theorem units_le (h : n ≤ n') : f.units n ≤ f.units n' := by
  rcases Nat.lt_or_eq_of_le h with h | rfl
  · exact Nat.le_of_lt (units_lt h)
  · exact Nat.le_refl _

theorem units_inj (h : f.units n = f.units n') : n = n' := by
  rcases Nat.lt_trichotomy n n' with hlt | rfl | hlt
  · exact absurd h (Nat.ne_of_lt (units_lt hlt))
  · rfl
  · exact absurd h.symm (Nat.ne_of_lt (units_lt hlt))

/-! ## Patterns and their places -/

theorem pack_eq (f : Format) (s e m : Nat) :
    f.pack s e m = s * 2 ^ (f.exponentBits + f.fractionBits) + (e * 2 ^ f.fractionBits + m) := by
  rw [pack, Nat.add_mul, Nat.mul_assoc, Nat.pow_add, Nat.add_assoc]

theorem place_pack (he : e < 2 ^ f.exponentBits) (hm : m < 2 ^ f.fractionBits) :
    f.place (f.pack s e m) = e * 2 ^ f.fractionBits + m := by
  rw [place, exponent_pack he hm, fraction_pack hm]

/-- A pattern is its sign and its place. -/
theorem eq_of_place {b' : Nat} (hb : b < 2 ^ (1 + f.exponentBits + f.fractionBits))
    (hb' : b' < 2 ^ (1 + f.exponentBits + f.fractionBits)) (hs : f.sign b = f.sign b')
    (hp : f.place b = f.place b') : b = b' := by
  rw [← pack_parts hb, ← pack_parts hb', pack_eq, pack_eq, hs]
  exact congrArg _ hp

/-- Only NaNs are behind the infinity. -/
theorem place_le (h : f.isNaN b = false) : f.place b ≤ f.maxExponent * 2 ^ f.fractionBits := by
  have hm := f.fraction_lt b
  have he : f.exponent b < 2 ^ f.exponentBits := Nat.mod_lt _ (Nat.two_pow_pos _)
  unfold isNaN at h
  unfold place
  by_cases hmax : f.exponent b = f.maxExponent
  · have hzero : f.fraction b = 0 := by simpa [hmax] using h
    rw [hmax, hzero]
    exact Nat.le_refl _
  · have hlt : f.exponent b + 1 ≤ f.maxExponent := by
      unfold maxExponent at hmax ⊢
      omega
    have := Nat.mul_le_mul_right (2 ^ f.fractionBits) hlt
    rw [Nat.add_mul, Nat.one_mul] at this
    omega

/-! ## The nearest number -/

/-- The pattern denotes the number of the format that is nearest to a double, and has its sign. Numbers that are as far
from an infinity as from the largest number, or nearer, become infinite. -/
structure IsNearest (f : Format) (d r : Nat) : Prop where
  pattern : r < 2 ^ (1 + f.exponentBits + f.fractionBits)
  number : f.isNaN r = false
  sign : f.sign r = double.sign d
  infinite : double.exponent d = double.maxExponent → r = f.pack (double.sign d) f.maxExponent 0
  nearest : double.exponent d ≠ double.maxExponent → ∀ b < 2 ^ (1 + f.exponentBits + f.fractionBits),
    f.isNaN b = false → (f.value r - double.value d).natAbs ≤ (f.value b - double.value d).natAbs

/-- The function rounds to nearest. Of two numbers that are as near it may choose either. -/
def RoundsToNearest (f : Format) (round : Nat → Nat) : Prop := ∀ d, double.isNaN d = false → f.IsNearest d (round d)

/-! ## Finding it -/

/-- The exponent that a magnitude has in the format, counted from the smallest normal numbers. -/
def binade (f : Format) (x : Nat) : Nat := (x / 2 ^ f.scale).log2 - f.fractionBits

/-- The distance of the numbers around a magnitude. -/
def step (f : Format) (x : Nat) : Nat := 2 ^ (f.scale + f.binade x)

/-- The place of the last number that is not greater. -/
def floorPlace (f : Format) (x : Nat) : Nat := f.binade x * 2 ^ f.fractionBits + x / f.step x

/-- The place of the nearest number, and of two that are as near the even one. -/
def nearestPlace (f : Format) (x : Nat) : Nat :=
  if 2 * (x % f.step x) < f.step x ∨ 2 * (x % f.step x) = f.step x ∧ f.floorPlace x % 2 = 0 then f.floorPlace x
  else f.floorPlace x + 1

/-- The pattern of the nearest number: an infinity when it is behind all others. -/
def round (f : Format) (d : Nat) : Nat :=
  if double.exponent d = double.maxExponent then f.pack (double.sign d) f.maxExponent 0
  else
    let n := min (f.nearestPlace (double.magnitude d)) (f.maxExponent * 2 ^ f.fractionBits)
    f.pack (double.sign d) (n / 2 ^ f.fractionBits) (n % 2 ^ f.fractionBits)

/-- The significand of a magnitude in the format. -/
theorem significand_bounds (f : Format) (x : Nat) :
    (f.binade x = 0 ∨ 2 ^ f.fractionBits ≤ x / f.step x) ∧ x / f.step x < 2 * 2 ^ f.fractionBits := by
  have hstep : x / f.step x = x / 2 ^ f.scale / 2 ^ f.binade x := by rw [step, Nat.pow_add, Nat.div_div_eq_div_mul]
  rw [hstep, binade]
  generalize x / 2 ^ f.scale = q
  by_cases hq : q = 0
  · subst hq
    have := Nat.two_pow_pos f.fractionBits
    rw [Nat.zero_div]
    exact ⟨.inl (by simp), by omega⟩
  have hlow : 2 ^ q.log2 ≤ q := (Nat.le_log2 hq).mp (Nat.le_refl _)
  have hhigh : q < 2 ^ (q.log2 + 1) := Nat.lt_log2_self
  by_cases hsmall : q.log2 ≤ f.fractionBits
  · have hzero : q.log2 - f.fractionBits = 0 := by omega
    have hle : 2 ^ (q.log2 + 1) ≤ 2 ^ (f.fractionBits + 1) := Nat.pow_le_pow_right (by decide) (by omega)
    rw [hzero, Nat.pow_zero, Nat.div_one]
    refine ⟨.inl rfl, ?_⟩
    rw [Nat.pow_succ] at hle
    omega
  · obtain ⟨k, hk⟩ : ∃ k, q.log2 = f.fractionBits + k := ⟨q.log2 - f.fractionBits, by omega⟩
    have hsub : f.fractionBits + k - f.fractionBits = k := by omega
    rw [hk] at hlow hhigh
    rw [hk, hsub]
    constructor
    · right
      rw [Nat.le_div_iff_mul_le (Nat.two_pow_pos _), ← Nat.pow_add]
      exact hlow
    · rw [Nat.div_lt_iff_lt_mul (Nat.two_pow_pos _), ← Nat.pow_succ', ← Nat.pow_add]
      have hexp : f.fractionBits + 1 + k = f.fractionBits + k + 1 := by omega
      rwa [Nat.succ_eq_add_one, hexp]

/-- A magnitude is between its floor and the number behind it, which is one step away. -/
theorem floorPlace_bounds (f : Format) (x : Nat) :
    f.units (f.floorPlace x) * 2 ^ f.scale + x % f.step x = x ∧
      f.units (f.floorPlace x + 1) * 2 ^ f.scale = f.units (f.floorPlace x) * 2 ^ f.scale + f.step x := by
  obtain ⟨hk, hj⟩ := f.significand_bounds x
  have hfloor : f.units (f.floorPlace x) * 2 ^ f.scale = x / f.step x * f.step x := by
    rw [floorPlace, units_eq hk (by omega), Nat.mul_assoc, ← Nat.pow_add, Nat.add_comm, step]
  have hnext : f.units (f.floorPlace x + 1) * 2 ^ f.scale = (x / f.step x + 1) * f.step x := by
    rw [floorPlace, Nat.add_assoc, units_eq (hk.imp_right (by omega)) (by omega), Nat.mul_assoc, ← Nat.pow_add,
      Nat.add_comm (f.binade x), step]
  refine ⟨?_, ?_⟩
  · rw [hfloor, Nat.div_add_mod']
  · rw [hnext, hfloor, Nat.add_mul, Nat.one_mul]

theorem nearestPlace_cases (f : Format) (x : Nat) :
    f.nearestPlace x = f.floorPlace x ∧ 2 * (x % f.step x) ≤ f.step x ∨
      f.nearestPlace x = f.floorPlace x + 1 ∧ f.step x ≤ 2 * (x % f.step x) := by
  unfold nearestPlace
  split
  · exact .inl ⟨rfl, by omega⟩
  · exact .inr ⟨rfl, by omega⟩

/-- Up to the last place there is, none is nearer. -/
theorem nearestPlace_le (f : Format) (x : Nat) {last : Nat} (hn : n ≤ last) :
    ((f.units (min (f.nearestPlace x) last) * 2 ^ f.scale : Nat) - (x : Int)).natAbs ≤
      ((f.units n * 2 ^ f.scale : Nat) - (x : Int)).natAbs := by
  obtain ⟨hfloor, hnext⟩ := f.floorPlace_bounds x
  have hmono : ∀ {n n'}, n ≤ n' → f.units n * 2 ^ f.scale ≤ f.units n' * 2 ^ f.scale := fun h =>
    Nat.mul_le_mul_right _ (units_le h)
  have hrest : x % f.step x < f.step x := Nat.mod_lt _ (Nat.two_pow_pos _)
  have hcases := f.nearestPlace_cases x
  by_cases hlast : f.nearestPlace x ≤ last
  · rw [Nat.min_eq_left hlast]
    have hside : f.units n * 2 ^ f.scale ≤ f.units (f.floorPlace x) * 2 ^ f.scale ∨
        f.units (f.floorPlace x + 1) * 2 ^ f.scale ≤ f.units n * 2 ^ f.scale := by
      by_cases hlow : n ≤ f.floorPlace x
      · exact .inl (hmono hlow)
      · exact .inr (hmono (show f.floorPlace x + 1 ≤ n by omega))
    rcases hcases with ⟨hp, hd⟩ | ⟨hp, hd⟩
    · rw [hp]
      omega
    · rw [hp]
      omega
  · -- all places are below the magnitude, and the last is the nearest
    rw [Nat.min_eq_right (Nat.le_of_not_le hlast)]
    have hbelow := hmono (show last ≤ f.floorPlace x by omega)
    have := hmono hn
    omega

/-- The pattern at a place. -/
theorem place_parts (hf : 0 < f.maxExponent) (hs : s < 2) (hn : n ≤ f.maxExponent * 2 ^ f.fractionBits) :
    let p := f.pack s (n / 2 ^ f.fractionBits) (n % 2 ^ f.fractionBits)
    p < 2 ^ (1 + f.exponentBits + f.fractionBits) ∧ f.isNaN p = false ∧ f.sign p = s ∧ f.place p = n := by
  have hpos := Nat.two_pow_pos f.fractionBits
  have hm := Nat.mod_lt n hpos
  have hle : n / 2 ^ f.fractionBits ≤ f.maxExponent := Nat.div_le_of_le_mul (by rwa [Nat.mul_comm])
  have he : n / 2 ^ f.fractionBits < 2 ^ f.exponentBits := by
    unfold maxExponent at hf hle
    omega
  refine ⟨pack_lt hs he hm, ?_, sign_pack hs he hm, ?_⟩
  · unfold isNaN
    rw [exponent_pack he hm, fraction_pack hm]
    by_cases hmax : n / 2 ^ f.fractionBits = f.maxExponent
    · have hparts := Nat.div_add_mod' n (2 ^ f.fractionBits)
      rw [hmax] at hparts
      have hzero : n % 2 ^ f.fractionBits = 0 := by omega
      simp [hzero]
    · simp [hmax]
  · rw [place_pack he hm, Nat.div_add_mod']

/-- Of numbers with any signs, none is nearer to a number than one of its sign whose magnitude is the nearest. -/
theorem natAbs_sub_le (hr : f.sign r = double.sign d)
    (h : ((f.magnitude r : Int) - double.magnitude d).natAbs ≤ ((f.magnitude b : Int) - double.magnitude d).natAbs) :
    (f.value r - double.value d).natAbs ≤ (f.value b - double.value d).natAbs := by
  unfold value
  rw [hr]
  split <;> split <;> omega

/-- The function finds a nearest number. -/
theorem roundsToNearest_round (hf : 0 < f.maxExponent) : f.RoundsToNearest f.round := by
  intro d hd
  have hs := double.sign_lt d
  by_cases hinf : double.exponent d = double.maxExponent
  · have hpos := Nat.two_pow_pos f.fractionBits
    have hparts := place_parts hf hs (Nat.le_refl (f.maxExponent * 2 ^ f.fractionBits))
    rw [Nat.mul_div_cancel _ hpos, Nat.mul_mod_left] at hparts
    obtain ⟨hpattern, hnumber, hsign, -⟩ := hparts
    have hround : f.round d = f.pack (double.sign d) f.maxExponent 0 := if_pos hinf
    rw [hround]
    exact ⟨hpattern, hnumber, hsign, fun _ => rfl, fun h => absurd hinf h⟩
  · obtain ⟨hpattern, hnumber, hsign, hplace⟩ := place_parts hf hs
      (Nat.min_le_right (f.nearestPlace (double.magnitude d)) (f.maxExponent * 2 ^ f.fractionBits))
    have hround : f.round d = _ := if_neg hinf
    rw [hround]
    refine ⟨hpattern, hnumber, hsign, fun h => absurd h hinf, fun _ b _ hnan => natAbs_sub_le hsign ?_⟩
    rw [magnitude_eq, magnitude_eq f b, hplace]
    exact f.nearestPlace_le _ (place_le hnan)

end SecurityKey.Cbor.Format
