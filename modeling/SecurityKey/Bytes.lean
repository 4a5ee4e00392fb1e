/-!
# Byte strings

- big-endian numbers: `Bytes.ofNat` writes a number in a fixed width (`length_ofNat`), `Bytes.minimal` without
  leading zeros, and `Bytes.toNat` reads either back (`toNat_ofNat`, `ofNat_toNat`, `toNat_minimal`). Leading zeros
  apart, a string is its number in as few bytes as it needs (`stripZeros_eq_minimal`);
- `Bytes.split?` cuts a string at an exact length, or refuses when it is too short (`split?_eq_some_iff`);
- `Bytes.Sized n` is the type of byte strings of length `n`;
- `Bytes.ofString` and `Bytes.toString?` pass between text and its UTF-8 form (`toString?_ofString`,
  `ofString_of_toString?`), which tells the text (`ofString_inj`).
-/

namespace SecurityKey

/-- A byte string. -/
abbrev Bytes := List UInt8

namespace Bytes

/-! ## Big-endian numbers -/

section Numbers

-- Powers are those of the core library, also where an algebraic library is imported before this module.
attribute [local instance (high + 1)] instPowNat

/-- The number whose big-endian digits in base 256 are the bytes. -/
def toNat (b : Bytes) : Nat :=
  b.foldl (fun n x => n * 256 + x.toNat) 0

/-- The low `width` bytes of a number, most significant first. -/
def ofNat : (width n : Nat) → Bytes
  | 0, _ => []
  | w + 1, n => UInt8.ofNat (n / 256 ^ w) :: ofNat w n

/-- A byte string without its leading zeros. -/
def stripZeros (b : Bytes) : Bytes :=
  b.dropWhile (· == 0)

/-- How many bytes a number needs, with none for zero. -/
def width (n : Nat) : Nat :=
  if n = 0 then 0 else n.log2 / 8 + 1

/-- A number in as few bytes as it needs. -/
def minimal (n : Nat) : Bytes :=
  ofNat (width n) n

@[simp]
theorem length_ofNat (w n : Nat) : (ofNat w n).length = w := by
  induction w with
  | zero => rfl
  | succ w ih => simp [ofNat, ih]

theorem foldl_toNat (b : Bytes) (k : Nat) :
    b.foldl (fun n x => n * 256 + x.toNat) k = k * 256 ^ b.length + toNat b := by
  induction b generalizing k with
  | nil => simp [toNat]
  | cons x r ih =>
    have hr : toNat (x :: r) = (0 * 256 + x.toNat) * 256 ^ r.length + toNat r := ih _
    rw [List.foldl_cons, ih, hr]
    simp only [List.length_cons, Nat.pow_succ, Nat.add_mul, Nat.zero_mul, Nat.zero_add]
    rw [Nat.mul_assoc, Nat.mul_comm 256, Nat.add_assoc]

@[simp]
theorem toNat_nil : toNat [] = 0 := rfl

theorem toNat_cons (x : UInt8) (b : Bytes) : toNat (x :: b) = x.toNat * 256 ^ b.length + toNat b := by
  rw [toNat, List.foldl_cons, foldl_toNat]
  simp

/-- What is written in `w` bytes reads back as the number modulo `256 ^ w`. -/
theorem toNat_ofNat (w n : Nat) : toNat (ofNat w n) = n % 256 ^ w := by
  induction w with
  | zero => simp [ofNat, Nat.mod_one]
  | succ w ih =>
    have hx : (UInt8.ofNat (n / 256 ^ w)).toNat = n / 256 ^ w % 256 := by simp
    rw [ofNat, toNat_cons, length_ofNat, ih, hx, Nat.pow_succ, Nat.mod_mul]
    rw [Nat.mul_comm (n / 256 ^ w % 256), Nat.add_comm]

theorem toNat_lt (b : Bytes) : toNat b < 256 ^ b.length := by
  induction b with
  | nil => exact Nat.one_pos
  | cons x r ih =>
    have hx : x.toNat + 1 ≤ 256 := x.toNat_lt
    have hmul := Nat.mul_le_mul_right (256 ^ r.length) hx
    rw [Nat.add_mul, Nat.one_mul] at hmul
    rw [toNat_cons, List.length_cons, Nat.pow_succ, Nat.mul_comm (256 ^ r.length)]
    omega

/-- Only the low bytes of a number are written. -/
theorem ofNat_mul_add (w k n : Nat) : ofNat w (k * 256 ^ w + n) = ofNat w n := by
  induction w generalizing k with
  | zero => rfl
  | succ w ih =>
    have hk : k * 256 ^ (w + 1) + n = k * 256 * 256 ^ w + n := by rw [Nat.pow_succ, Nat.mul_assoc, Nat.mul_comm 256]
    have hdiv : (k * 256 * 256 ^ w + n) / 256 ^ w = n / 256 ^ w + 256 * k := by
      rw [Nat.mul_comm, Nat.mul_add_div (Nat.pow_pos (by decide)), Nat.mul_comm k, Nat.add_comm]
    have hbyte : UInt8.ofNat (n / 256 ^ w + 256 * k) = UInt8.ofNat (n / 256 ^ w) := by
      apply UInt8.toNat_inj.mp
      simp
    rw [hk, ofNat, ofNat, ih, hdiv, hbyte]

/-- A byte string is what its number is written as in its own width. -/
theorem ofNat_toNat (b : Bytes) : ofNat b.length (toNat b) = b := by
  induction b with
  | nil => rfl
  | cons x r ih =>
    have hdiv : (x.toNat * 256 ^ r.length + toNat r) / 256 ^ r.length = x.toNat := by
      rw [Nat.mul_comm, Nat.mul_add_div (Nat.pow_pos (by decide)), Nat.div_eq_of_lt (toNat_lt r), Nat.add_zero]
    rw [List.length_cons, ofNat, toNat_cons, hdiv, ofNat_mul_add, ih, UInt8.ofNat_toNat]

/-- Leading zeros do not count. -/
theorem toNat_stripZeros (b : Bytes) : toNat (stripZeros b) = toNat b := by
  induction b with
  | nil => rfl
  | cons x r ih =>
    rw [stripZeros, List.dropWhile_cons]
    by_cases hx : x = 0
    · subst hx
      have hzero : toNat (0 :: r) = toNat r := by
        rw [toNat_cons]
        simp
      rw [if_pos (beq_self_eq_true _), hzero]
      exact ih
    · rw [if_neg (by simpa using hx)]

/-- A number fits the bytes it needs, and no fewer. -/
theorem width_le_iff {n k : Nat} : width n ≤ k ↔ n < 256 ^ k := by
  have hpow : 256 ^ k = 2 ^ (8 * k) := (Nat.pow_mul 2 8 k).symm
  rw [hpow]
  by_cases hn : n = 0
  · have := Nat.two_pow_pos (8 * k)
    rw [width, if_pos hn]
    omega
  · rw [width, if_neg hn, ← Nat.log2_lt hn]
    omega

theorem lt_pow_width (n : Nat) : n < 256 ^ width n := width_le_iff.mp (Nat.le_refl _)

/-- What is written without leading zeros is read back. -/
theorem toNat_minimal (n : Nat) : toNat (minimal n) = n := by
  rw [minimal, toNat_ofNat, Nat.mod_eq_of_lt (lt_pow_width n)]

/-- A number with as many bytes as it needs. -/
theorem width_toNat_cons {x : UInt8} (hx : x ≠ 0) (r : Bytes) : width (toNat (x :: r)) = r.length + 1 := by
  have hpos : 1 ≤ x.toNat := Nat.one_le_iff_ne_zero.mpr fun h => hx (UInt8.toNat_inj.mp h)
  have hge : 256 ^ r.length ≤ toNat (x :: r) := by
    rw [toNat_cons]
    have := Nat.mul_le_mul_right (256 ^ r.length) hpos
    omega
  have hhigh : width (toNat (x :: r)) ≤ r.length + 1 := width_le_iff.mpr (toNat_lt (x :: r))
  have hlow : ¬ width (toNat (x :: r)) ≤ r.length := fun h => Nat.not_lt.mpr hge (width_le_iff.mp h)
  omega

/-- What is left begins with a byte that is not zero. -/
theorem head_stripZeros_ne_zero {b r : Bytes} {x : UInt8} (h : stripZeros b = x :: r) : x ≠ 0 := by
  have hhead := List.head?_dropWhile_not (· == 0) b
  rw [stripZeros] at h
  rw [h] at hhead
  simpa using hhead

/-- Leading zeros apart, a byte string is its number in as few bytes as it needs. -/
theorem stripZeros_eq_minimal (b : Bytes) : stripZeros b = minimal (toNat b) := by
  have hwidth : width (toNat (stripZeros b)) = (stripZeros b).length := by
    cases h : stripZeros b with
    | nil => rfl
    | cons x r => exact width_toNat_cons (head_stripZeros_ne_zero h) r
  rw [minimal, ← toNat_stripZeros, hwidth, ofNat_toNat]

end Numbers

/-! ## Cutting -/

/-- The first `n` bytes and the rest, when there are that many. -/
def split? (n : Nat) (b : Bytes) : Option (Bytes × Bytes) :=
  if (b.take n).length = n then some (b.take n, b.drop n) else none

theorem split?_eq_some_iff {n : Nat} {b front rest : Bytes} :
    split? n b = some (front, rest) ↔ b = front ++ rest ∧ front.length = n := by
  unfold split?
  constructor
  · intro h
    split at h
    · rename_i hl
      simp only [Option.some.injEq, Prod.mk.injEq] at h
      obtain ⟨rfl, rfl⟩ := h
      exact ⟨(List.take_append_drop n b).symm, hl⟩
    · simp at h
  · rintro ⟨rfl, rfl⟩
    simp

/-- The byte strings of length `n`. -/
abbrev Sized (n : Nat) := { b : Bytes // b.length = n }

/-- A byte string as one of length `n`, when it is. -/
def sized? (n : Nat) (b : Bytes) : Option (Sized n) :=
  if h : b.length = n then some ⟨b, h⟩ else none

theorem sized?_val {n : Nat} (b : Sized n) : sized? n b.val = some b := by
  rw [sized?, dif_pos b.property]

/-- The string of `n` zeros. -/
def Sized.zero (n : Nat) : Sized n := ⟨List.replicate n 0, by simp⟩

/-- The first `n` bytes, filled up with zeros. -/
def Sized.ofPrefix (n : Nat) (b : Bytes) : Sized n :=
  ⟨b.take n ++ List.replicate (n - b.length) 0, by simp; omega⟩

/-! ## Text -/

/-- The UTF-8 form of a text. -/
def ofString (s : String) : Bytes :=
  s.toByteArray.data.toList

/-- The text whose UTF-8 form the bytes are. -/
def toString? (b : Bytes) : Option String :=
  String.fromUTF8? ⟨b.toArray⟩

theorem toString?_ofString (s : String) : toString? (ofString s) = some s := by
  have h : (⟨(ofString s).toArray⟩ : ByteArray) = s.toByteArray := by simp [ofString]
  unfold toString? String.fromUTF8?
  rw [h, dif_pos s.isValidUTF8]
  rfl

/-- A text has the bytes it was read from. -/
theorem ofString_of_toString? {b : Bytes} {s : String} (h : toString? b = some s) : ofString s = b := by
  unfold toString? String.fromUTF8? at h
  split at h
  · cases h
    simp [ofString, String.fromUTF8]
  · cases h

/-- Texts with the same UTF-8 form are the same. -/
theorem ofString_inj {s t : String} (h : ofString s = ofString t) : s = t := by
  have hread := congrArg toString? h
  rw [toString?_ofString, toString?_ofString] at hread
  exact Option.some.inj hread

/-! ## Hexadecimal text -/

/-- One lower-case hexadecimal digit. -/
def hexDigit (n : Nat) : Char :=
  if n < 10 then Char.ofNat (48 + n) else Char.ofNat (87 + n)

/-- Two lower-case hexadecimal digits per byte. -/
def toHex (b : Bytes) : String :=
  String.ofList (b.flatMap fun x => [hexDigit (x.toNat / 16), hexDigit (x.toNat % 16)])

/-- The value of a hexadecimal digit in either case. -/
def hexValue? (c : Char) : Option Nat :=
  if c.isDigit then some (c.toNat - 48)
  else if 'a' ≤ c ∧ c ≤ 'f' then some (c.toNat - 87)
  else if 'A' ≤ c ∧ c ≤ 'F' then some (c.toNat - 55)
  else none

/-- The bytes of pairs of hexadecimal digits, behind the given bytes in reverse. -/
def readHex (reversed : Bytes) : List Char → Option Bytes
  | [] => some reversed.reverse
  | [_] => none
  | hi :: lo :: rest => do
    let h ← hexValue? hi
    let l ← hexValue? lo
    readHex (.ofNat (h * 16 + l) :: reversed) rest

/-- The bytes of hexadecimal text, two digits per byte. -/
def ofHex? (s : String) : Option Bytes := readHex [] s.toList

end Bytes

end SecurityKey
