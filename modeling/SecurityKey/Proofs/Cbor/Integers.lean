import SecurityKey.Proofs.Cbor.Faithful

/-!
# Numbers and the items that carry them

An item denotes a number in one of three forms, and `Value.toInt?` is that number whatever its size.

- a number has one item that carries it, in the form that its size asks for (`Value.Carries`), which is the item that
  is made of it (`Value.carries_ofInt`) and is read back when it was written (`Value.decode_encode_ofInt`);
- items are read as numbers of 128 or of 64 bits exactly when what they denote has no more
  (`Value.toInt128?_eq_some_iff`, `Value.toInt64?_eq_some_iff`);
- a number is looked up at the first key that denotes it (`Value.lookup_eq_some_iff`);
- `Value.ofWord?` and `Value.toWord?` make and read items by arithmetic on words of 128 bits, with no outcome where it
  wraps. It never does, and the outcome is that of the numbers (`Value.ofWord?_eq`, `Value.exists_toWord?`).
-/

namespace SecurityKey.Cbor

namespace Value

variable {v : Value} {k : Int}

/-! ## Forms -/

/-- The items that carry numbers: an unsigned or a negative item as long as 64 bits hold its argument, and otherwise a
bignum without leading zeros. -/
inductive Carries : Value → Int → Prop
  | unsigned (n : UInt64) : Carries (.unsigned n) n.toNat
  | negative (n : UInt64) : Carries (.negative n) (-1 - n.toNat)
  | large (m : Nat) (h : 2 ^ 64 ≤ m) : Carries (.bignum false (Bytes.minimal m)) m
  | small (m : Nat) (h : 2 ^ 64 ≤ m) : Carries (.bignum true (Bytes.minimal m)) (-1 - m)

/-- The item that is made of a number carries it. -/
theorem carries_ofInt (k : Int) : Carries (ofInt k) k := by
  cases k with
  | ofNat m =>
    rw [ofInt]
    split
    · rename_i hm
      have hcarries := Carries.unsigned (.ofNat m)
      rwa [UInt64.toNat_ofNat', Nat.mod_eq_of_lt hm] at hcarries
    · rename_i hm
      exact .large m (Nat.le_of_not_lt hm)
  | negSucc m =>
    have hk : Int.negSucc m = -1 - m := by omega
    rw [ofInt, hk]
    split
    · rename_i hm
      have hcarries := Carries.negative (.ofNat m)
      rwa [UInt64.toNat_ofNat', Nat.mod_eq_of_lt hm] at hcarries
    · rename_i hm
      exact .small m (Nat.le_of_not_lt hm)

/-- A number in as few bytes as it needs has no leading zeros to lose. -/
theorem stripZeros_minimal (m : Nat) : Bytes.stripZeros (Bytes.minimal m) = Bytes.minimal m := by
  rw [Bytes.stripZeros_eq_minimal, Bytes.toNat_minimal]

theorem head?_minimal_ne_zero (m : Nat) : (Bytes.minimal m).head? ≠ some 0 := by
  intro hzero
  obtain ⟨rest, hrest⟩ := List.head?_eq_some_iff.mp hzero
  exact Bytes.head_stripZeros_ne_zero ((stripZeros_minimal m).trans hrest) rfl

namespace Carries

theorem toInt?_eq (h : Carries v k) : v.toInt? = some k := by
  cases h with
  | unsigned n | negative n => rfl
  | large m | small m => simp [toInt?, Bytes.toNat_minimal]

/-- An item that carries a number is unsigned exactly for the numbers of 64 bits without a sign. -/
theorem unsigned_iff (h : Carries v k) : (∃ n, v = .unsigned n) ↔ 0 ≤ k ∧ k < 2 ^ 64 := by
  cases h with
  | unsigned n =>
    have := n.toNat_lt
    exact ⟨fun _ => by omega, fun _ => ⟨n, rfl⟩⟩
  | negative n | large m | small m => exact ⟨nofun, fun _ => by omega⟩

/-- It is negative exactly for the numbers as far below zero. -/
theorem negative_iff (h : Carries v k) : (∃ n, v = .negative n) ↔ -2 ^ 64 ≤ k ∧ k < 0 := by
  cases h with
  | negative n =>
    have := n.toNat_lt
    exact ⟨fun _ => by omega, fun _ => ⟨n, rfl⟩⟩
  | unsigned n | large m | small m => exact ⟨nofun, fun _ => by omega⟩

/-- For all others it is a bignum, and has no leading zeros. -/
theorem bignum_iff (h : Carries v k) :
    (∃ isNegative magnitude, v = .bignum isNegative magnitude ∧ magnitude.head? ≠ some 0) ↔
      k < -2 ^ 64 ∨ 2 ^ 64 ≤ k := by
  cases h with
  | unsigned n | negative n =>
    have := n.toNat_lt
    exact ⟨nofun, fun _ => by omega⟩
  | large m | small m => exact ⟨fun _ => by omega, fun _ => ⟨_, _, rfl, head?_minimal_ne_zero m⟩⟩

theorem canonical (h : Carries v k) : v.canon = v := by
  cases h with
  | unsigned n | negative n => rfl
  | large m | small m => rw [canon, stripZeros_minimal]

theorem need_le (h : Carries v k) : v.need ≤ 2 := by
  cases h with
  | unsigned n | negative n => exact Nat.le_succ 1
  | large m | small m => exact Nat.le_refl 2

end Carries

/-! ## Numbers of 128 and of 64 bits -/

/-- A magnitude of less than 128 bits takes at most 16 bytes. -/
theorem length_stripZeros_le {magnitude : Bytes} (h : magnitude.toNat < 2 ^ 127) :
    (Bytes.stripZeros magnitude).length ≤ 16 := by
  rw [Bytes.stripZeros_eq_minimal, Bytes.minimal, Bytes.length_ofNat, Bytes.width_le_iff]
  exact Nat.lt_trans h (by decide)

/-- Whether a bignum is read as a number of 128 bits depends on its magnitude alone. -/
theorem toInt128?_bignum (isNegative : Bool) (magnitude : Bytes) : toInt128? (.bignum isNegative magnitude) =
    if magnitude.toNat < 2 ^ 127 then some (if isNegative then -1 - (magnitude.toNat : Int) else magnitude.toNat)
    else none := by
  simp only [toInt128?, Bytes.toNat_stripZeros]
  by_cases h : magnitude.toNat < 2 ^ 127
  · rw [if_pos h, if_pos ⟨length_stripZeros_le h, h⟩]
  · rw [if_neg h, if_neg fun hboth => h hboth.2]

/-- An item is read as a number of 128 bits exactly when it denotes one. -/
theorem toInt128?_eq_some_iff : v.toInt128? = some k ↔ v.toInt? = some k ∧ -2 ^ 127 ≤ k ∧ k < 2 ^ 127 := by
  cases v with
  | unsigned n | negative n =>
    have := n.toNat_lt
    simp only [toInt128?, toInt?, Option.some.injEq]
    omega
  | bignum isNegative magnitude =>
    rw [toInt128?_bignum, toInt?]
    split <;> cases isNegative <;> simp <;> omega
  | _ => simp [toInt128?, toInt?]

/-- The least number of 128 bits, behind a leading zero. -/
example : toInt128? (.bignum true (0x00 :: 0x7f :: List.replicate 15 0xff)) = some (-2 ^ 127) := by decide

/-- An item is read as a number of 64 bits exactly when it denotes one. -/
theorem toInt64?_eq_some_iff : v.toInt64? = some k ↔ v.toInt? = some k ∧ -2 ^ 63 ≤ k ∧ k < 2 ^ 63 := by
  rw [toInt64?, Option.filter_eq_some_iff, toInt128?_eq_some_iff, decide_eq_true_iff, and_assoc]
  constructor
  · rintro ⟨hv, -, hk⟩
    exact ⟨hv, hk⟩
  · rintro ⟨hv, hk⟩
    exact ⟨hv, by omega, hk⟩

/-- A number of 128 bits is read from its item when that was written. -/
theorem decode_encode_ofInt (hlow : -2 ^ 127 ≤ k) (hhigh : k < 2 ^ 127) : decode (ofInt k).encode = .ok (ofInt k) := by
  have hcarries := carries_ofInt k
  have hfits : (ofInt k).Fits := by
    generalize ofInt k = v at hcarries
    have hwidth : ∀ m : Nat, m < 2 ^ 127 → (Bytes.minimal m).length < 2 ^ 64 := by
      intro m hm
      have hle : (Bytes.minimal m).length ≤ 16 := by
        rw [← stripZeros_minimal]
        exact length_stripZeros_le (by rwa [Bytes.toNat_minimal])
      omega
    cases hcarries with
    | unsigned n | negative n => exact Nat.two_pow_pos 64
    | large m | small m => exact hwidth m (by omega)
  have hneed := hcarries.need_le
  rw [decode_of_need_le hfits (by omega), hcarries.canonical]

/-! ## Looking up numbers -/

/-- The value of the first entry whose key denotes the number. -/
def IsFirst (entries : List (Value × Value)) (key : Int) (v : Value) : Prop :=
  ∃ before k after, entries = before ++ (k, v) :: after ∧ k.toInt? = some key ∧
    ∀ e ∈ before, e.1.toInt? ≠ some key

/-- A number of 64 bits is looked up at the first key that denotes it. -/
theorem lookup_eq_some_iff {entries : List (Value × Value)} {key : Int} (hlow : -2 ^ 63 ≤ key) (hhigh : key < 2 ^ 63) :
    lookup entries key = some v ↔ IsFirst entries key v := by
  have hkey : ∀ k : Value, k.toInt64? = some key ↔ k.toInt? = some key :=
    fun k => toInt64?_eq_some_iff.trans (and_iff_left ⟨hlow, hhigh⟩)
  rw [lookup, Option.map_eq_some_iff]
  simp only [List.find?_eq_some_iff_append, beq_iff_eq, Bool.not_eq_eq_eq_not, Bool.not_true,
    beq_eq_false_iff_ne, ne_eq, hkey]
  constructor
  · rintro ⟨⟨k, w⟩, ⟨hk, before, after, rfl, hbefore⟩, rfl⟩
    exact ⟨before, k, after, rfl, hk, hbefore⟩
  · rintro ⟨before, k, after, rfl, hk, hbefore⟩
    exact ⟨(k, v), ⟨hk, before, after, rfl, hbefore⟩, rfl⟩

/-- What is found in an item is found among its entries. -/
theorem find?_eq_some_iff {found : Value} {key : Int} :
    v.find? key = some found ↔ ∃ entries, v = .map entries ∧ lookup entries key = some found := by
  cases v with
  | map entries =>
    constructor
    · intro h
      exact ⟨entries, rfl, h⟩
    · rintro ⟨entries, ⟨⟩, h⟩
      exact h
  | _ => exact ⟨nofun, nofun⟩

/-- So is what is found in the fields of a message. -/
theorem get?_ofValue_iff {found : Value} {key : Int} :
    (∃ fields, Fields.ofValue v = .ok fields ∧ fields.get? key = some found) ↔
      ∃ entries, v = .map entries ∧ lookup entries key = some found := by
  cases v with
  | map entries =>
    constructor
    · rintro ⟨fields, ⟨⟩, h⟩
      exact ⟨entries, rfl, h⟩
    · rintro ⟨entries, ⟨⟩, h⟩
      exact ⟨_, rfl, h⟩
  | _ => exact ⟨nofun, nofun⟩

/-! ## Arithmetic on words -/

/-- A word of 128 bits, with a sign. -/
abbrev Word := BitVec 128

/-- The difference of two words, where it does not wrap. -/
def Word.sub? (a b : Word) : Option Word := if a.ssubOverflow b then none else some (a - b)

/-- The magnitude of a word without a sign. -/
def Word.magnitude (n : Word) : Bytes := Bytes.stripZeros (Bytes.ofNat 16 n.toNat)

/-- The item of a word. There is no outcome when a difference wraps. -/
def ofWord? (n : Word) : Option Value :=
  if 0 ≤ n.toInt then some (if n.toNat < 2 ^ 64 then .unsigned (.ofNat n.toNat) else .bignum false n.magnitude)
  else do
    let argument ← Word.sub? (-1) n
    some (if argument.toNat < 2 ^ 64 then .negative (.ofNat argument.toNat) else .bignum true argument.magnitude)

/-- The word of a magnitude that leaves room for a sign. Without leading zeros the magnitude has to fit 16 bytes, which
are filled up in front. -/
def Word.ofMagnitude? (magnitude : Bytes) : Option Word :=
  let digits := Bytes.stripZeros magnitude
  if 16 < digits.length then none
  else
    let n : Word := .ofNat 128 (Bytes.toNat (List.replicate (16 - digits.length) 0 ++ digits))
    if n.msb then none else some n

/-- The word of the number that an item denotes, if there is one. There is no outcome when a difference wraps. -/
def toWord? : Value → Option (Option Word)
  | .unsigned n => some (some (.ofNat 128 n.toNat))
  | .negative n => (Word.sub? (-1) (.ofNat 128 n.toNat)).map some
  | .bignum isNegative magnitude =>
    match Word.ofMagnitude? magnitude with
    | some n => if isNegative then (Word.sub? (-1) n).map some else some (some n)
    | none => some none
  | _ => some none

/-- No word is so small that the difference wraps. -/
theorem Word.exists_sub? (n : Word) : ∃ m, Word.sub? (-1) n = some m ∧ m.toInt = -1 - n.toInt := by
  have hone : (-1 : Word).toInt = -1 := by decide
  have hlow := n.le_toInt
  have hhigh := n.toInt_lt
  have hfits : (-1 : Word).ssubOverflow n ≠ true := by
    simp only [BitVec.ssubOverflow, hone, ne_eq, Bool.or_eq_true, decide_eq_true_eq]
    omega
  refine ⟨-1 - n, if_neg hfits, ?_⟩
  rw [BitVec.toInt_sub_of_not_ssubOverflow hfits, hone]

/-- A word that is not below zero is its number without a sign. -/
theorem Word.toInt_eq_toNat {n : Word} (h : 0 ≤ n.toInt) : n.toInt = n.toNat := by
  have := n.isLt
  rw [BitVec.toInt_eq_toNat_cond] at h ⊢
  split at h <;> omega

theorem Word.magnitude_eq (n : Word) : n.magnitude = Bytes.minimal n.toNat := by
  have hlt : n.toNat < 256 ^ 16 := n.isLt
  rw [Word.magnitude, Bytes.stripZeros_eq_minimal, Bytes.toNat_ofNat, Nat.mod_eq_of_lt hlt]

/-- The item of a word is that of its number. -/
theorem ofWord?_eq (n : Word) : ofWord? n = some (ofInt n.toInt) := by
  unfold ofWord?
  by_cases h : 0 ≤ n.toInt
  · rw [if_pos h, Word.toInt_eq_toNat h, Word.magnitude_eq]
    rfl
  · obtain ⟨argument, hsub, hargument⟩ := Word.exists_sub? n
    have hnat := Word.toInt_eq_toNat (n := argument) (by omega)
    have hn : n.toInt = Int.negSucc argument.toNat := by omega
    rw [if_neg h, hsub, hn, Option.bind_eq_bind, Option.bind_some, Word.magnitude_eq]
    rfl

/-- Bytes in front of which zeros are put have the number they had. -/
theorem toNat_replicate_append (n : Nat) (b : Bytes) : Bytes.toNat (List.replicate n 0 ++ b) = b.toNat := by
  induction n with
  | zero => rfl
  | succ n ih =>
    rw [List.replicate_succ, List.cons_append, Bytes.toNat_cons, ih]
    simp

/-- The word of a number without a sign that leaves room for one. -/
theorem Word.toInt_ofNat {m : Nat} (h : m < 2 ^ 127) : (BitVec.ofNat 128 m).toInt = m := by
  rw [BitVec.toInt_ofNat', Int.bmod_eq_of_le_mul_two] <;> omega

/-- A magnitude has a word exactly when it leaves room for a sign. -/
theorem Word.ofMagnitude?_eq (magnitude : Bytes) :
    Word.ofMagnitude? magnitude = if magnitude.toNat < 2 ^ 127 then some (.ofNat 128 magnitude.toNat) else none := by
  unfold Word.ofMagnitude?
  simp only [toNat_replicate_append, Bytes.toNat_stripZeros]
  by_cases hroom : magnitude.toNat < 2 ^ 127
  · have hmsb : (BitVec.ofNat 128 magnitude.toNat).msb = false := by
      rw [BitVec.msb_eq_decide, BitVec.toNat_ofNat]
      exact decide_eq_false (by omega)
    rw [if_pos hroom, if_neg (Nat.not_lt.mpr (length_stripZeros_le hroom)), hmsb, if_neg Bool.false_ne_true]
  · rw [if_neg hroom]
    split
    · rfl
    · rename_i hlength
      have hbytes := Bytes.toNat_lt (Bytes.stripZeros magnitude)
      have hpow : 256 ^ (Bytes.stripZeros magnitude).length ≤ 256 ^ 16 :=
        Nat.pow_le_pow_right (by decide) (Nat.le_of_not_lt hlength)
      have hmsb : (BitVec.ofNat 128 magnitude.toNat).msb = true := by
        rw [Bytes.toNat_stripZeros] at hbytes
        rw [BitVec.msb_eq_decide, BitVec.toNat_ofNat]
        exact decide_eq_true (by omega)
      rw [hmsb, if_pos rfl]

/-- The word that is read is that of the number, if there is one. -/
theorem exists_toWord? (v : Value) : ∃ word, v.toWord? = some word ∧ word.map BitVec.toInt = v.toInt128? := by
  have hbelow : ∀ {m : Nat}, m < 2 ^ 127 → ∃ word, (Word.sub? (-1) (.ofNat 128 m)).map some = some word ∧
      word.map BitVec.toInt = some (-1 - (m : Int)) := by
    intro m hm
    obtain ⟨n, hsub, hn⟩ := Word.exists_sub? (.ofNat 128 m)
    rw [Word.toInt_ofNat hm] at hn
    exact ⟨some n, congrArg _ hsub, congrArg some hn⟩
  have hshort : ∀ n : UInt64, n.toNat < 2 ^ 127 := fun n => Nat.lt_trans n.toNat_lt (by decide)
  cases v with
  | unsigned n => exact ⟨_, rfl, congrArg some (Word.toInt_ofNat (hshort n))⟩
  | negative n => exact hbelow (hshort n)
  | bignum isNegative magnitude =>
    rw [toWord?, Word.ofMagnitude?_eq, toInt128?_bignum]
    by_cases hroom : magnitude.toNat < 2 ^ 127
    · rw [if_pos hroom, if_pos hroom]
      cases isNegative with
      | true => exact hbelow hroom
      | false => exact ⟨_, rfl, congrArg some (Word.toInt_ofNat hroom)⟩
    · rw [if_neg hroom, if_neg hroom]
      exact ⟨none, rfl, rfl⟩
  | _ => exact ⟨none, rfl, rfl⟩

/-! ## All together -/

/-- The item of a number has the form that the size of the number asks for, and the number is read from it, also when
it was written in between. -/
structure Carried (k : Int) : Prop where
  unsigned : (∃ n, ofInt k = .unsigned n) ↔ 0 ≤ k ∧ k < 2 ^ 64
  negative : (∃ n, ofInt k = .negative n) ↔ -2 ^ 64 ≤ k ∧ k < 0
  bignum : (∃ isNegative magnitude, ofInt k = .bignum isNegative magnitude ∧ magnitude.head? ≠ some 0) ↔
    k < -2 ^ 64 ∨ 2 ^ 64 ≤ k
  read : (ofInt k).toInt128? = some k
  written : ∃ v, decode (ofInt k).encode = .ok v ∧ v.toInt128? = some k

theorem carried_of_bounds (hlow : -2 ^ 127 ≤ k) (hhigh : k < 2 ^ 127) : Carried k := by
  have hcarries := carries_ofInt k
  have hread := toInt128?_eq_some_iff.mpr ⟨hcarries.toInt?_eq, hlow, hhigh⟩
  exact ⟨hcarries.unsigned_iff, hcarries.negative_iff, hcarries.bignum_iff, hread, _, decode_encode_ofInt hlow hhigh,
    hread⟩

/-- **Numbers never wrap.** Every number of 128 bits is carried by its item, and made to it by arithmetic on words that
never wraps. From every item, of whatever form and with whatever leading zeros, what it denotes is read as a number of
128 or 64 bits exactly when it is one, again by arithmetic that never wraps. And in a map, and among the fields of a
message, every number of 64 bits is found at the first key that denotes it in any form. -/
theorem numbers_exact :
    (∀ n : Word, Carried n.toInt ∧ ofWord? n = some (ofInt n.toInt)) ∧
    (∀ v : Value, (∀ k, v.toInt128? = some k ↔ v.toInt? = some k ∧ -2 ^ 127 ≤ k ∧ k < 2 ^ 127) ∧
      (∀ k, v.toInt64? = some k ↔ v.toInt? = some k ∧ -2 ^ 63 ≤ k ∧ k < 2 ^ 63) ∧
      ∃ word, v.toWord? = some word ∧ word.map BitVec.toInt = v.toInt128?) ∧
    ∀ (v found : Value) (key : Int64),
      (v.find? key.toInt = some found ↔ ∃ entries, v = .map entries ∧ IsFirst entries key.toInt found) ∧
      ((∃ fields, Fields.ofValue v = .ok fields ∧ fields.get? key.toInt = some found) ↔
        ∃ entries, v = .map entries ∧ IsFirst entries key.toInt found) := by
  refine ⟨?_, ?_, ?_⟩
  · intro n
    exact ⟨carried_of_bounds n.le_toInt n.toInt_lt, ofWord?_eq n⟩
  · intro v
    exact ⟨fun _ => toInt128?_eq_some_iff, fun _ => toInt64?_eq_some_iff, exists_toWord? v⟩
  · intro v found key
    have hlookup : ∀ entries, lookup entries key.toInt = some found ↔ IsFirst entries key.toInt found :=
      fun _ => lookup_eq_some_iff key.le_toInt key.toInt_lt
    rw [find?_eq_some_iff, get?_ofValue_iff]
    simp only [hlookup, and_self]

end Value

end SecurityKey.Cbor
