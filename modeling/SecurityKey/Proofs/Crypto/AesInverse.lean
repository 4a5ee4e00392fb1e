import Mathlib.Algebra.Group.Nat.Defs
import SecurityKey.Crypto.Sha256
import SecurityKey.Proofs.Crypto.Aes

/-!
# Decryption inverts encryption

Every layer of a round has its inverse: the substitution because inverses of bytes (`inverse_inverse`) and the affine
map are undone, the mixing of a column because multiplication is linear and the coefficients are those of inverse
polynomials. So do rounds (`decryptRounds_encryptRounds`), blocks (`decryptBlock_encryptBlock`) and, under a key of 32
bytes, whole blocks in chaining mode (`decrypt_encrypt`).
-/

namespace SecurityKey.Crypto.Aes

/-! ## Bytes -/

/-- What holds of the bytes of all numbers below 256 holds of all bytes. -/
theorem forall_byte {P : UInt8 → Prop} (h : ∀ n < 256, P (.ofNat n)) (x : UInt8) : P x := by
  have hx := h x.toNat x.toNat_lt
  rwa [UInt8.ofNat_toNat] at hx

theorem getD_substituteTable (x : UInt8) : substituteTable.getD x.toNat 0 = substitute x := by
  have hx : x.toNat < 256 := x.toNat_lt
  simp [substituteTable, Array.getD, hx]

theorem getD_unsubstituteTable (x : UInt8) : unsubstituteTable.getD x.toNat 0 = unsubstitute x := by
  have hx : x.toNat < 256 := x.toNat_lt
  simp [unsubstituteTable, Array.getD, hx]

theorem double_xor (a b : UInt8) : double (a ^^^ b) = double a ^^^ double b := by
  have htop : ∀ x : UInt8, x &&& 0x80 = 0 ∨ x &&& 0x80 = 0x80 := forall_byte (by decide +kernel)
  have hxor : (a ^^^ b) &&& 0x80 = (a &&& 0x80) ^^^ (b &&& 0x80) := by
    rw [← UInt8.toNat_inj]
    simp only [UInt8.toNat_and, UInt8.toNat_xor]
    exact Nat.and_xor_distrib_right
  have hne : (0x80 : UInt8) ≠ 0 := by decide
  unfold double
  rw [UInt8.shiftLeft_xor, hxor]
  -- the polynomial is subtracted where exactly one of the two has its top bit
  rcases htop a with ha | ha <;> rcases htop b with hb | hb <;> rw [ha, hb]
  · simp
  · simp only [UInt8.zero_xor, if_neg hne, if_true]
    ac_rfl
  · simp only [UInt8.xor_zero, if_neg hne, if_true]
    ac_rfl
  · simp only [UInt8.xor_self, if_neg hne, if_true]
    have hcancel : (0 : UInt8) = 0x1b ^^^ 0x1b := UInt8.xor_self.symm
    rw [hcancel]
    ac_rfl

/-- What one bit of the second factor does to the product so far and the first factor. -/
def mulStep (b : UInt8) (x : UInt8 × UInt8) (i : Nat) : UInt8 × UInt8 :=
  (if b.toNat.testBit i then x.1 ^^^ x.2 else x.1, double x.2)

theorem mul_eq_foldl (a b : UInt8) : mul a b = ((List.range 8).foldl (mulStep b) (0, a)).1 := rfl

theorem foldl_mulStep_xor (c : UInt8) (bits : List Nat) (x y : UInt8 × UInt8) :
    bits.foldl (mulStep c) (x.1 ^^^ y.1, x.2 ^^^ y.2) =
      ((bits.foldl (mulStep c) x).1 ^^^ (bits.foldl (mulStep c) y).1,
        (bits.foldl (mulStep c) x).2 ^^^ (bits.foldl (mulStep c) y).2) := by
  induction bits generalizing x y with
  | nil => rfl
  | cons i bits ih =>
    have hstep : mulStep c (x.1 ^^^ y.1, x.2 ^^^ y.2) i =
        ((mulStep c x i).1 ^^^ (mulStep c y i).1, (mulStep c x i).2 ^^^ (mulStep c y i).2) := by
      unfold mulStep
      rw [double_xor]
      split
      · refine Prod.ext ?_ rfl
        show x.1 ^^^ y.1 ^^^ (x.2 ^^^ y.2) = x.1 ^^^ x.2 ^^^ (y.1 ^^^ y.2)
        ac_rfl
      · rfl
    rw [List.foldl_cons, List.foldl_cons, List.foldl_cons, hstep, ih]

/-- Multiplication is linear in its first factor. -/
theorem mul_xor (a b c : UInt8) : mul (a ^^^ b) c = mul a c ^^^ mul b c := by
  have h := congrArg Prod.fst (foldl_mulStep_xor c (List.range 8) (0, a) (0, b))
  simp only [UInt8.xor_self] at h
  rw [mul_eq_foldl, mul_eq_foldl, mul_eq_foldl, h]

/-! ## Inverses

Products are evaluated on numbers, where each of their steps takes a few operations of arithmetic. -/

/-- A number below 256 doubled in the field. -/
def doubleNat (n : Nat) : Nat := 2 * n ^^^ n / 128 * 0x11b

/-- The step of a product on numbers. -/
def mulStepNat (b : Nat) (x : Nat × Nat) (i : Nat) : Nat × Nat := (x.1 ^^^ b / 2 ^ i % 2 * x.2, doubleNat x.2)

/-- The product of two numbers below 256 in the field. -/
def mulNat (a b : Nat) : Nat := ((List.range 8).foldl (mulStepNat b) (0, a)).1

/-- The inverse of a number below 256 in the field. -/
def inverseNat (a : Nat) : Nat :=
  let a2 := mulNat a a
  let a3 := mulNat a2 a
  let a12 := mulNat (mulNat a3 a3) (mulNat a3 a3)
  let a15 := mulNat a12 a3
  let a30 := mulNat a15 a15
  let a60 := mulNat a30 a30
  let a120 := mulNat a60 a60
  let a240 := mulNat a120 a120
  mulNat (mulNat a240 a12) a2

theorem toNat_double (a : UInt8) : (double a).toNat = doubleNat a.toNat :=
  forall_byte (P := fun a => (double a).toNat = doubleNat a.toNat) (by decide +kernel) a

theorem toNat_mulStep (b : UInt8) (x : UInt8 × UInt8) (i : Nat) :
    ((mulStep b x i).1.toNat, (mulStep b x i).2.toNat) = mulStepNat b.toNat (x.1.toNat, x.2.toNat) i := by
  rw [mulStep, mulStepNat, toNat_double, Nat.testBit_eq_decide_div_mod_eq]
  rcases Nat.mod_two_eq_zero_or_one (b.toNat / 2 ^ i) with h | h <;> simp [h]

theorem toNat_mul (a b : UInt8) : (mul a b).toNat = mulNat a.toNat b.toNat := by
  have hfold : ∀ (bits : List Nat) (x : UInt8 × UInt8),
      ((bits.foldl (mulStep b) x).1.toNat, (bits.foldl (mulStep b) x).2.toNat) =
        bits.foldl (mulStepNat b.toNat) (x.1.toNat, x.2.toNat) := by
    intro bits
    induction bits with
    | nil => exact fun _ => rfl
    | cons i bits ih =>
      intro x
      rw [List.foldl_cons, List.foldl_cons, ih, toNat_mulStep]
  exact congrArg Prod.fst (hfold (List.range 8) (0, a))

theorem toNat_inverse (a : UInt8) : (inverse a).toNat = inverseNat a.toNat := by
  simp only [inverse, inverseNat, toNat_mul]

theorem inverse_inverse (a : UInt8) : inverse (inverse a) = a := by
  have h : ∀ n < 256, inverseNat (inverseNat n) = n := by decide +kernel
  rw [← UInt8.toNat_inj, toNat_inverse, toNat_inverse, h _ a.toNat_lt]

theorem unsubstitute_substitute (x : UInt8) : unsubstitute (substitute x) = x := by
  -- the affine map undone
  have hturned : ∀ a : UInt8,
      let b := a ^^^ rotate a 1 ^^^ rotate a 2 ^^^ rotate a 3 ^^^ rotate a 4 ^^^ 0x63
      rotate b 1 ^^^ rotate b 3 ^^^ rotate b 6 ^^^ 0x05 = a := forall_byte (by decide +kernel)
  exact (congrArg inverse (hturned (inverse x))).trans (inverse_inverse x)

/-! ## Layers -/

/-- Adding a block that is long enough twice changes nothing. -/
theorem add_add_cancel {a b : Block} (h : a.length ≤ b.length) : add (add a b) b = a := by
  induction a generalizing b with
  | nil => simp [add]
  | cons x a ih =>
    cases b with
    | nil => cases h
    | cons y b =>
      have ih := ih (Nat.le_of_succ_le_succ h)
      simp only [add, List.zipWith_cons_cons] at ih ⊢
      rw [ih, UInt8.xor_assoc, UInt8.xor_self, UInt8.xor_zero]

theorem length_add {a b : Block} (h : a.length ≤ b.length) : (add a b).length = a.length := by
  rw [add, List.length_zipWith, Nat.min_eq_left h]

@[simp]
theorem unsubstituteBytes_substituteBytes (b : Block) : unsubstituteBytes (substituteBytes b) = b := by
  rw [unsubstituteBytes, substituteBytes, List.map_map]
  refine List.map_id'' (fun x => ?_) b
  rw [Function.comp_apply, getD_substituteTable, getD_unsubstituteTable, unsubstitute_substitute]

@[simp]
theorem unshiftRows_shiftRows (b : Block) : unshiftRows (shiftRows b) = b := by
  unfold shiftRows
  split
  · rfl
  · rename_i h
    unfold unshiftRows
    split
    · exact (h _ _ _ _ _ _ _ _ _ _ _ _ _ _ _ _ rfl).elim
    · rfl

/-- The coefficients of mixing and of its inverse, multiplied as polynomials. -/
theorem coefficients (x : UInt8) :
    mul (mul x 2) 14 ^^^ mul (mul x 1) 11 ^^^ mul (mul x 1) 13 ^^^ mul (mul x 3) 9 = x ∧
    mul (mul x 3) 14 ^^^ mul (mul x 2) 11 ^^^ mul (mul x 1) 13 ^^^ mul (mul x 1) 9 = 0 ∧
    mul (mul x 1) 14 ^^^ mul (mul x 3) 11 ^^^ mul (mul x 2) 13 ^^^ mul (mul x 1) 9 = 0 ∧
    mul (mul x 1) 14 ^^^ mul (mul x 1) 11 ^^^ mul (mul x 3) 13 ^^^ mul (mul x 2) 9 = 0 := by
  have h : ∀ n < 256,
      mulNat (mulNat n 2) 14 ^^^ mulNat (mulNat n 1) 11 ^^^ mulNat (mulNat n 1) 13 ^^^ mulNat (mulNat n 3) 9 = n ∧
      mulNat (mulNat n 3) 14 ^^^ mulNat (mulNat n 2) 11 ^^^ mulNat (mulNat n 1) 13 ^^^ mulNat (mulNat n 1) 9 = 0 ∧
      mulNat (mulNat n 1) 14 ^^^ mulNat (mulNat n 3) 11 ^^^ mulNat (mulNat n 2) 13 ^^^ mulNat (mulNat n 1) 9 = 0 ∧
      mulNat (mulNat n 1) 14 ^^^ mulNat (mulNat n 1) 11 ^^^ mulNat (mulNat n 3) 13 ^^^ mulNat (mulNat n 2) 9 = 0 := by
    decide +kernel
  simp only [← UInt8.toNat_inj, UInt8.toNat_xor, toNat_mul]
  exact h _ x.toNat_lt

/-- One byte of a column that was mixed and is unmixed. -/
theorem unmix_byte (a b c d : UInt8) :
    mul (mul a 2 ^^^ mul b 3 ^^^ mul c 1 ^^^ mul d 1) 14 ^^^ mul (mul a 1 ^^^ mul b 2 ^^^ mul c 3 ^^^ mul d 1) 11 ^^^
      mul (mul a 1 ^^^ mul b 1 ^^^ mul c 2 ^^^ mul d 3) 13 ^^^ mul (mul a 3 ^^^ mul b 1 ^^^ mul c 1 ^^^ mul d 2) 9 =
      a := by
  obtain ⟨ha, -, -, -⟩ := coefficients a
  obtain ⟨-, hb, -, -⟩ := coefficients b
  obtain ⟨-, -, hc, -⟩ := coefficients c
  obtain ⟨-, -, -, hd⟩ := coefficients d
  simp only [mul_xor]
  calc _ = (mul (mul a 2) 14 ^^^ mul (mul a 1) 11 ^^^ mul (mul a 1) 13 ^^^ mul (mul a 3) 9) ^^^
        (mul (mul b 3) 14 ^^^ mul (mul b 2) 11 ^^^ mul (mul b 1) 13 ^^^ mul (mul b 1) 9) ^^^
        (mul (mul c 1) 14 ^^^ mul (mul c 3) 11 ^^^ mul (mul c 2) 13 ^^^ mul (mul c 1) 9) ^^^
        (mul (mul d 1) 14 ^^^ mul (mul d 1) 11 ^^^ mul (mul d 3) 13 ^^^ mul (mul d 2) 9) := by ac_rfl
    _ = a := by rw [ha, hb, hc, hd, UInt8.xor_zero, UInt8.xor_zero, UInt8.xor_zero]

@[simp]
theorem unmixColumns_mixColumns (b : Block) : unmixColumns (mixColumns b) = b := by
  fun_induction mixColumns b with
  | case1 a b c d rest ih =>
    simp only [mulColumn, List.cons_append, List.nil_append, unmixColumns, ih]
    -- the other bytes of the column are the first one of a column that is turned
    congr 1
    · exact unmix_byte a b c d
    congr 1
    · refine Eq.trans ?_ (unmix_byte b c d a)
      ac_nf
    congr 1
    · refine Eq.trans ?_ (unmix_byte c d a b)
      ac_nf
    congr 1
    · refine Eq.trans ?_ (unmix_byte d a b c)
      ac_nf
  | case2 b h =>
    unfold unmixColumns
    split
    · exact (h _ _ _ _ _ rfl).elim
    · rfl

/-! ## Rounds -/

theorem length_encryptRounds {keys : List Block} (hk : ∀ k ∈ keys, k.length = 16) {b : Block} (hb : b.length = 16) :
    (encryptRounds keys b).length = 16 := by
  fun_induction encryptRounds keys b with
  | case1 b => exact hb
  | case2 k b =>
    have hk := hk k (List.mem_cons_self ..)
    rw [length_add] <;> simp [hb, hk]
  | case3 k ks b hne ih =>
    have hfirst := hk k (List.mem_cons_self ..)
    refine ih (fun k h => hk k (List.mem_cons_of_mem _ h)) ?_
    rw [length_add] <;> simp [hb, hfirst]

/-- The rounds undone. -/
theorem decryptRounds_encryptRounds {keys : List Block} (hk : ∀ k ∈ keys, k.length = 16) {b : Block}
    (hb : b.length = 16) : decryptRounds keys (encryptRounds keys b) = b := by
  fun_induction encryptRounds keys b with
  | case1 b => rfl
  | case2 k b =>
    have hk := hk k (List.mem_cons_self ..)
    rw [decryptRounds, add_add_cancel, unshiftRows_shiftRows, unsubstituteBytes_substituteBytes]
    simp [hb, hk]
  | case3 k ks b hne ih =>
    have hfirst := hk k (List.mem_cons_self ..)
    have hround : (add (mixColumns (shiftRows (substituteBytes b))) k).length = 16 := by
      rw [length_add] <;> simp [hb, hfirst]
    rw [decryptRounds, ih (fun k h => hk k (List.mem_cons_of_mem _ h)) hround, add_add_cancel, unmixColumns_mixColumns,
      unshiftRows_shiftRows, unsubstituteBytes_substituteBytes]
    · simp [hb, hfirst]
    · exact hne

/-! ## Blocks -/

theorem length_encryptBlock {keys : List Block} (hk : ∀ k ∈ keys, k.length = 16) {b : Block} (hb : b.length = 16) :
    (encryptBlock keys b).length = 16 := by
  cases keys with
  | nil => exact hb
  | cons k ks =>
    have hfirst := hk k (List.mem_cons_self ..)
    refine length_encryptRounds (fun k h => hk k (List.mem_cons_of_mem _ h)) ?_
    rw [length_add] <;> simp [hb, hfirst]

/-- The block before its encryption. -/
theorem decryptBlock_encryptBlock {keys : List Block} (hk : ∀ k ∈ keys, k.length = 16) {b : Block}
    (hb : b.length = 16) : decryptBlock keys (encryptBlock keys b) = b := by
  cases keys with
  | nil => rfl
  | cons k ks =>
    have hfirst := hk k (List.mem_cons_self ..)
    have hsum : (add b k).length = 16 := by rw [length_add] <;> simp [hb, hfirst]
    rw [encryptBlock, decryptBlock, decryptRounds_encryptRounds (fun k h => hk k (List.mem_cons_of_mem _ h)) hsum,
      add_add_cancel]
    simp [hb, hfirst]

theorem length_encryptChain (keys : List Block) (previous : Block) (blocks : List Block) :
    (encryptChain keys previous blocks).length = blocks.length := by
  induction blocks generalizing previous with
  | nil => rfl
  | cons b rest ih => rw [encryptChain, List.length_cons, ih, List.length_cons]

theorem length_of_mem_encryptChain {keys : List Block} (hk : ∀ k ∈ keys, k.length = 16) {blocks : List Block}
    (hb : ∀ b ∈ blocks, b.length = 16) {previous : Block} (hp : previous.length = 16) :
    ∀ c ∈ encryptChain keys previous blocks, c.length = 16 := by
  induction blocks generalizing previous with
  | nil => exact fun _ h => nomatch h
  | cons b rest ih =>
    have hfirst := hb b (List.mem_cons_self ..)
    have hc : (encryptBlock keys (add b previous)).length = 16 := by
      refine length_encryptBlock hk ?_
      rw [length_add] <;> simp [hfirst, hp]
    exact List.forall_mem_cons.mpr ⟨hc, ih (fun b h => hb b (List.mem_cons_of_mem _ h)) hc⟩

/-- Chained blocks before their encryption. -/
theorem decryptChain_encryptChain {keys : List Block} (hk : ∀ k ∈ keys, k.length = 16) {blocks : List Block}
    (hb : ∀ b ∈ blocks, b.length = 16) {previous : Block} (hp : previous.length = 16) :
    decryptChain keys previous (encryptChain keys previous blocks) = blocks := by
  induction blocks generalizing previous with
  | nil => rfl
  | cons b rest ih =>
    have hfirst := hb b (List.mem_cons_self ..)
    have hsum : (add b previous).length = 16 := by rw [length_add] <;> simp [hfirst, hp]
    rw [encryptChain, decryptChain, decryptBlock_encryptBlock hk hsum,
      ih (fun b h => hb b (List.mem_cons_of_mem _ h)) (length_encryptBlock hk hsum), add_add_cancel]
    simp [hfirst, hp]

/-! ## Key schedule -/

/-- Words of four bytes. -/
def AreWords (ws : List Block) : Prop := ∀ w ∈ ws, w.length = 4

theorem areWords_nextWords (constant : UInt8) {ws : List Block} (h : AreWords ws) :
    AreWords (nextWords constant ws) := by
  unfold nextWords
  split
  · simp only [AreWords, List.forall_mem_cons] at h
    obtain ⟨h0, h1, h2, h3, h4, h5, h6, h7, -⟩ := h
    simp [AreWords, add, h0, h1, h2, h3, h4, h5, h6, h7, substituteBytes]
  · exact h

theorem length_nextWords (constant : UInt8) (ws : List Block) : (nextWords constant ws).length = ws.length := by
  unfold nextWords
  split <;> rfl

theorem areWords_expand {ws : List Block} (h : AreWords ws) (constants : List UInt8) :
    AreWords (expand ws constants) := by
  induction constants generalizing ws with
  | nil => exact h
  | cons constant rest ih => exact List.forall_mem_append.mpr ⟨h, ih (areWords_nextWords constant h)⟩

theorem length_expand (ws : List Block) (constants : List UInt8) :
    (expand ws constants).length = ws.length * (constants.length + 1) := by
  induction constants generalizing ws with
  | nil => simp [expand]
  | cons constant rest ih =>
    rw [expand, List.length_append, ih, length_nextWords, List.length_cons, Nat.mul_succ _ (rest.length + 1),
      Nat.add_comm]

/-- Under a key of 32 bytes every round key is as long as a block. -/
theorem length_of_mem_roundKeys {key : Bytes} (h : key.length = 32) {k : Block} (hk : k ∈ roundKeys key) :
    k.length = 16 := by
  have hwords : AreWords (chunks 4 key) := fun w hw => length_of_mem_chunks_of_dvd (by decide) (by simp [h]) hw
  have hcount : (chunks 4 key).length = 8 := by
    rw [length_chunks (by decide), h]
  unfold roundKeys at hk
  obtain ⟨group, hgroup, rfl⟩ := List.mem_map.mp hk
  have hlength : ((expand (chunks 4 key) [1, 2, 4, 8, 16, 32, 64]).take 60).length = 60 := by
    rw [List.length_take, length_expand, hcount]
    rfl
  have hfour : group.length = 4 := length_of_mem_chunks_of_dvd (by decide) (by simp [hlength]) hgroup
  have hexpanded := areWords_expand hwords [1, 2, 4, 8, 16, 32, 64]
  have hgroupWords : AreWords group := by
    intro w hw
    refine hexpanded w (List.mem_of_mem_take (i := 60) ?_)
    rw [← flatten_chunks (n := 4) (by decide) (List.take 60 _)]
    exact List.mem_flatten.mpr ⟨group, hgroup, hw⟩
  rw [length_flatten_of_forall hgroupWords, hfour]

/-! ## Whole data -/

/-- Whole blocks under a key of 32 bytes come back from their encryption. -/
theorem decrypt_encrypt {key data : Bytes} (hkey : key.length = 32) (h : data.length % 16 = 0) :
    decrypt key (encrypt key data) = data := by
  have hk : ∀ k ∈ roundKeys key, k.length = 16 := fun k => length_of_mem_roundKeys hkey
  have hb : ∀ b ∈ chunks 16 data, b.length = 16 := fun b => length_of_mem_chunks_of_dvd (by decide) h
  have hzero : zeroBlock.length = 16 := rfl
  unfold decrypt encrypt
  rw [chunks_flatten (by decide) (length_of_mem_encryptChain hk hb hzero), decryptChain_encryptChain hk hb hzero,
    flatten_chunks (by decide)]

/-- Whole blocks are as long once they are encrypted. -/
theorem length_encrypt {key data : Bytes} (hkey : key.length = 32) (h : data.length % 16 = 0) :
    (encrypt key data).length = data.length := by
  have hk : ∀ k ∈ roundKeys key, k.length = 16 := fun k => length_of_mem_roundKeys hkey
  have hb : ∀ b ∈ chunks 16 data, b.length = 16 := fun b => length_of_mem_chunks_of_dvd (by decide) h
  have hdata := length_flatten_of_forall hb
  rw [flatten_chunks (by decide)] at hdata
  rw [encrypt, length_flatten_of_forall (length_of_mem_encryptChain hk hb rfl), length_encryptChain, hdata]

end SecurityKey.Crypto.Aes
