import SecurityKey.Crypto.Aes

/-!
# The length of encrypted data

Encrypted data are no longer than the data (`length_encrypt_le`), whatever the key.
-/

namespace SecurityKey.Crypto.Aes

theorem length_add_le (a b : Block) : (add a b).length ≤ a.length := by
  rw [add, List.length_zipWith]
  exact Nat.min_le_left ..

@[simp]
theorem length_substituteBytes (b : Block) : (substituteBytes b).length = b.length := List.length_map ..

@[simp]
theorem length_shiftRows (b : Block) : (shiftRows b).length = b.length := by
  unfold shiftRows
  split <;> rfl

@[simp]
theorem length_mixColumns (b : Block) : (mixColumns b).length = b.length := by
  fun_induction mixColumns b with
  | case1 a b c d rest ih => simp [mulColumn, ih]
  | case2 b h => rfl

/-- No round makes a block longer. -/
theorem length_encryptRounds_le (keys : List Block) (b : Block) : (encryptRounds keys b).length ≤ b.length := by
  fun_induction encryptRounds keys b with
  | case1 b => exact Nat.le_refl _
  | case2 k b => exact Nat.le_trans (length_add_le ..) (by simp)
  | case3 k ks b _ ih => exact Nat.le_trans ih (Nat.le_trans (length_add_le ..) (by simp))

theorem length_encryptBlock_le (keys : List Block) (b : Block) : (encryptBlock keys b).length ≤ b.length := by
  cases keys with
  | nil => exact Nat.le_refl _
  | cons k ks => exact Nat.le_trans (length_encryptRounds_le ..) (length_add_le ..)

/-- No block of a chain becomes longer. -/
theorem length_encryptChain_le (keys : List Block) (blocks : List Block) (previous : Block) :
    (encryptChain keys previous blocks).flatten.length ≤ blocks.flatten.length := by
  induction blocks generalizing previous with
  | nil => exact Nat.le_refl _
  | cons b rest ih =>
    have hb := Nat.le_trans (length_encryptBlock_le keys (add b previous)) (length_add_le b previous)
    have hrest := ih (encryptBlock keys (add b previous))
    simp only [encryptChain, List.flatten_cons, List.length_append]
    omega

/-- Encrypted data are no longer than the data. -/
theorem length_encrypt_le (key data : Bytes) : (encrypt key data).length ≤ data.length := by
  have h := length_encryptChain_le (roundKeys key) (chunks 16 data) zeroBlock
  rwa [flatten_chunks (by decide)] at h

end SecurityKey.Crypto.Aes
