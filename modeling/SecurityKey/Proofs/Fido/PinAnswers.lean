import SecurityKey.Fido.Pin
import SecurityKey.Proofs.Crypto.Aes

/-!
# Fixed answers to PIN requests

What an authenticator answers whose key pair has the scalar one and that has eight attempts left. A host with the same
key pair agrees with it (`exists_agreementWith_pairOfOne`) and can submit any PIN (`pinHashEnc_eq`).
-/

namespace SecurityKey.Fido.Pin

open Crypto

/-- The answer that eight attempts are left. -/
def retriesAnswer : Bytes := [0x00, 0xa1, 0x03, 0x08]

/-- The pair of the secret one. -/
def pairOfOne : KeyPair := ⟨1, P256.generator⟩

/-- The answer with the public key of that pair. -/
def keyAnswer : Bytes :=
  [0x00, 0xa1, 0x01, 0xa5, 0x01, 0x02, 0x03, 0x38, 0x18, 0x20, 0x01, 0x21, 0x58, 0x20] ++ pairOfOne.x ++
    [0x22, 0x58, 0x20] ++ pairOfOne.y

/-- The answer with an encrypted token: one block of zeros. -/
def tokenAnswer : Bytes := [0x00, 0xa1, 0x02, 0x50] ++ List.replicate 16 0

/-- Two owners of that pair agree. -/
theorem exists_agreementWith_pairOfOne : ∃ a, agreementWith pairOfOne (hostKey pairOfOne) = .ok a := by
  have h : (agreementWith pairOfOne (hostKey pairOfOne)).isOk = true := by decide +kernel
  cases hx : agreementWith pairOfOne (hostKey pairOfOne) with
  | error e => rw [hx] at h; cases h
  | ok a => exact ⟨a, rfl⟩

/-- The digest of a PIN can always be encrypted, and stays short. -/
theorem pinHashEnc_eq (key : Bytes) (pin : String) :
    ∃ enc, PinProtocol.pinHashEnc key pin = .ok enc ∧ enc.length ≤ 16 := by
  refine ⟨Aes.encrypt key (PinProtocol.hashPin pin), ?_, ?_⟩
  · have hb : (PinProtocol.hashPin pin).length % 16 = 0 := by rw [PinProtocol.length_hashPin]
    show Aes.encrypt key <$> (if _ then _ else _) = _
    rw [if_pos hb]
    rfl
  · have h := Aes.length_encrypt_le key (PinProtocol.hashPin pin)
    rwa [PinProtocol.length_hashPin] at h

end SecurityKey.Fido.Pin
