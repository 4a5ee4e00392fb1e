import SecurityKey.Crypto.Blocks

/-!
# SHA-1

The hash of key fingerprints: five words folded over the blocks of the message, with a sliding message schedule of
sixteen words. The digest has 20 bytes (`length_digest`).
-/

namespace SecurityKey.Crypto.Sha1

/-- The five working words. -/
structure State where
  a : UInt32
  b : UInt32
  c : UInt32
  d : UInt32
  e : UInt32
  deriving DecidableEq, Repr

/-- The state before the first block. -/
def initial : State := ⟨0x67452301, 0xefcdab89, 0x98badcfe, 0x10325476, 0xc3d2e1f0⟩

/-- The mixing function and the constant of round `t`. -/
def mix (t : Nat) (b c d : UInt32) : UInt32 :=
  if t < 20 then ((b &&& c) ||| (~~~b &&& d)) + 0x5a827999
  else if t < 40 then (b ^^^ c ^^^ d) + 0x6ed9eba1
  else if t < 60 then ((b &&& c) ||| (b &&& d) ||| (c &&& d)) + 0x8f1bbcdc
  else (b ^^^ c ^^^ d) + 0xca62c1d6

/-- Round `t` and the move of the schedule window. -/
def step (sw : State × List UInt32) (t : Nat) : State × List UInt32 :=
  let (s, window) := sw
  let w (i : Nat) := window.getD i 0
  let a := rotateLeft s.a 5 + mix t s.b s.c s.d + s.e + w 0
  (⟨a, s.a, rotateLeft s.b 30, s.c, s.d⟩, window.tail ++ [rotateLeft (w 13 ^^^ w 8 ^^^ w 2 ^^^ w 0) 1])

/-- The state after one block. -/
def compress (s : State) (block : List UInt32) : State :=
  let t := ((List.range 80).foldl step (s, block)).1
  ⟨s.a + t.a, s.b + t.b, s.c + t.c, s.d + t.d, s.e + t.e⟩

/-- The digest of a message. -/
def digest (message : Bytes) : Bytes :=
  let s := (messageBlocks message).foldl compress initial
  ofWords [s.a, s.b, s.c, s.d, s.e]

@[simp]
theorem length_digest (message : Bytes) : (digest message).length = 20 := by
  simp [digest]

end SecurityKey.Crypto.Sha1
