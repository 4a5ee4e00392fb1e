import SecurityKey.Crypto.PinProtocol
import SecurityKey.Proofs.Crypto.AesInverse

/-!
# Encryption under a session key

Under a session key, whole blocks that one side encrypts come back when the other decrypts them (`exists_encrypt`), in
particular the digest of a PIN (`exists_pinHashEnc`) and a padded PIN (`exists_newPinEnc`).
-/

namespace SecurityKey.Crypto.PinProtocol

@[simp]
theorem length_sessionKey (shared : Bytes) : (sessionKey shared).length = 32 :=
  Sha256.length_digest shared

theorem exists_encrypt (shared : Bytes) {data : Bytes} (h : data.length % 16 = 0) :
    ∃ enc, encrypt (sessionKey shared) data = .ok enc ∧ enc.length = data.length ∧
      decrypt (sessionKey shared) enc = .ok data := by
  have hlength := Aes.length_encrypt (length_sessionKey shared) h
  refine ⟨Aes.encrypt (sessionKey shared) data, ?_, hlength, ?_⟩
  · rw [encrypt, wholeBlocks, if_pos h]
    rfl
  · rw [decrypt, wholeBlocks, hlength, if_pos h]
    exact congrArg Except.ok (Aes.decrypt_encrypt (length_sessionKey shared) h)

theorem exists_pinHashEnc (shared : Bytes) (pin : String) :
    ∃ enc, pinHashEnc (sessionKey shared) pin = .ok enc ∧ enc.length = 16 ∧
      decrypt (sessionKey shared) enc = .ok (hashPin pin) := by
  have h : (hashPin pin).length % 16 = 0 := by rw [length_hashPin]
  obtain ⟨enc, henc, hlength, hdec⟩ := exists_encrypt shared h
  exact ⟨enc, henc, hlength.trans (length_hashPin pin), hdec⟩

/-- The padded form of a PIN that is short enough. -/
theorem padPin_eq {pin : String} (h : (Bytes.ofString pin).length ≤ 63) :
    padPin pin = .ok (Bytes.ofString pin ++ List.replicate (64 - (Bytes.ofString pin).length) 0) := by
  have hlt : (Bytes.ofString pin).length < paddedLength := Nat.lt_succ_of_le h
  rw [padPin, if_pos hlt]
  rfl

theorem exists_newPinEnc (shared : Bytes) {pin : String} (h : (Bytes.ofString pin).length ≤ 63) :
    ∃ enc, newPinEnc (sessionKey shared) pin = .ok enc ∧ enc.length = 64 ∧
      decrypt (sessionKey shared) enc = padPin pin := by
  have hpadded : (Bytes.ofString pin ++ List.replicate (64 - (Bytes.ofString pin).length) 0).length = 64 := by
    rw [List.length_append, List.length_replicate]
    omega
  have hblocks : (Bytes.ofString pin ++ List.replicate (64 - (Bytes.ofString pin).length) 0).length % 16 = 0 := by
    rw [hpadded]
  obtain ⟨enc, henc, hlength, hdec⟩ := exists_encrypt shared hblocks
  refine ⟨enc, ?_, hlength.trans hpadded, ?_⟩
  · rw [newPinEnc, padPin_eq h]
    exact henc
  · rw [padPin_eq h]
    exact hdec

end SecurityKey.Crypto.PinProtocol
