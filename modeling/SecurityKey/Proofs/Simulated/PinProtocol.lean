import SecurityKey.Crypto.PinProtocol
import SecurityKey.Proofs.Crypto.KeyPair
import SecurityKey.Simulated.PinProtocol

/-!
# A host computes what the PIN protocol says

The formulas of an authenticator give what a host computes: chaining block by block is the recursion over the blocks
(`encryptBlocks_eq`, `decryptBlocks_eq`), a public key given by coordinates is the point of their encoding
(`sessionKey?_eq`), and codes and digests are cut from the same ones (`code_eq`, `digest_eq`).
-/

namespace SecurityKey.Simulated.PinProtocol

open Crypto

variable (key data : Bytes)

/-! ## Chained blocks -/

theorem scanl_encryptBlock (keys blocks : List Aes.Block) (first : Aes.Block) :
    blocks.scanl (fun previous b => Aes.encryptBlock keys (Aes.add b previous)) first =
      first :: Aes.encryptChain keys first blocks := by
  induction blocks generalizing first with
  | nil => rfl
  | cons b rest ih => rw [List.scanl_cons, ih, Aes.encryptChain]

theorem encryptBlocks_eq (keys blocks : List Aes.Block) :
    encryptBlocks keys blocks = Aes.encryptChain keys Aes.zeroBlock blocks := by
  rw [encryptBlocks, scanl_encryptBlock]
  rfl

theorem zipWith_decryptBlock (keys blocks : List Aes.Block) (first : Aes.Block) :
    List.zipWith Aes.add (blocks.map (Aes.decryptBlock keys)) (first :: blocks) =
      Aes.decryptChain keys first blocks := by
  induction blocks generalizing first with
  | nil => rfl
  | cons b rest ih => rw [List.map_cons, List.zipWith_cons_cons, ih, Aes.decryptChain]

theorem decryptBlocks_eq (keys blocks : List Aes.Block) :
    decryptBlocks keys blocks = Aes.decryptChain keys Aes.zeroBlock blocks :=
  zipWith_decryptBlock keys blocks _

/-- Only whole blocks are encrypted, and as a host encrypts them. -/
theorem encrypt?_eq : encrypt? key data = (Crypto.PinProtocol.encrypt key data).toOption := by
  rw [encrypt?, encryptBlocks_eq, Crypto.PinProtocol.encrypt, Crypto.PinProtocol.wholeBlocks]
  split
  · rfl
  · rfl

/-- Only whole blocks are decrypted, and as a host decrypts them. -/
theorem decrypt?_eq : decrypt? key data = (Crypto.PinProtocol.decrypt key data).toOption := by
  rw [decrypt?, decryptBlocks_eq, Crypto.PinProtocol.decrypt, Crypto.PinProtocol.wholeBlocks]
  split
  · rfl
  · rfl

/-! ## Digests -/

theorem code_eq : code key data = Crypto.PinProtocol.authenticate key data := rfl

theorem digest_eq (pin : String) : digest pin = Crypto.PinProtocol.hashPin pin := rfl

/-! ## Shared coordinates -/

theorem sharedX?_eq (k : KeyPair) (host : Credential.PublicKey) :
    sharedX? k host = (k.agreeCoordinates host.x.val host.y.val).toOption :=
  (KeyPair.toOption_agreeCoordinates host.x.property host.y.property).symm

/-- Both sides take the digest of the coordinate that they share. -/
theorem sessionKey?_eq (k : KeyPair) (host : Credential.PublicKey) : sessionKey? k host =
    (k.agreeCoordinates host.x.val host.y.val).toOption.map Crypto.PinProtocol.sessionKey := by
  rw [sessionKey?, sharedX?_eq]
  rfl

end SecurityKey.Simulated.PinProtocol
