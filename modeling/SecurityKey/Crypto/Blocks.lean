import SecurityKey.Bytes
import SecurityKey.Chunks

/-!
# Message blocks of the SHA family

Both hash functions of the library read a message as blocks of sixteen 32-bit words, after a one bit, zeros and the
length of the message in bits.
-/

namespace SecurityKey.Crypto

/-- A message with its padding: a multiple of 64 bytes. -/
def padMessage (message : Bytes) : Bytes :=
  let zeros := (119 - message.length % 64) % 64
  message ++ 0x80 :: List.replicate zeros 0 ++ Bytes.ofNat 8 (message.length * 8)

/-- The word of four bytes, most significant first. -/
def word (a b c d : UInt8) : UInt32 :=
  a.toUInt32 <<< 24 ||| b.toUInt32 <<< 16 ||| c.toUInt32 <<< 8 ||| d.toUInt32

/-- The words of a byte string; fewer than four bytes at the end are dropped. -/
def words : Bytes → List UInt32
  | a :: b :: c :: d :: rest => word a b c d :: words rest
  | _ => []

/-- The bytes of words, most significant first. -/
def ofWords (ws : List UInt32) : Bytes :=
  ws.flatMap fun (w : UInt32) => [(w >>> 24).toUInt8, (w >>> 16).toUInt8, (w >>> 8).toUInt8, w.toUInt8]

/-- The sixteen-word blocks of a padded message. -/
def messageBlocks (message : Bytes) : List (List UInt32) :=
  chunks 16 (words (padMessage message))

/-- A word turned left. -/
def rotateLeft (w : UInt32) (n : UInt32) : UInt32 := w <<< n ||| w >>> (32 - n)

/-- A word turned right. -/
def rotateRight (w : UInt32) (n : UInt32) : UInt32 := w >>> n ||| w <<< (32 - n)

theorem length_padMessage (message : Bytes) : (padMessage message).length % 64 = 0 := by
  simp only [padMessage, List.length_append, List.length_cons, List.length_replicate, Bytes.length_ofNat]
  omega

@[simp]
theorem length_ofWords (ws : List UInt32) : (ofWords ws).length = 4 * ws.length := by
  induction ws with
  | nil => rfl
  | cons w ws ih =>
    simp only [ofWords, List.flatMap_cons, List.length_append, List.length_cons, List.length_nil] at *
    omega

end SecurityKey.Crypto
