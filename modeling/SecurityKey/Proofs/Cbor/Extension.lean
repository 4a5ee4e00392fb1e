import SecurityKey.Proofs.Cbor.Reencoding

/-!
# Items in front of other bytes

A measured item ends behind its first byte (`one_le_of_decodePrefix`) and not behind the end of the input
(`le_length_of_decodePrefix`). With the same item at the same position in front of any further bytes
(`decodePrefix_extend`), an item that is decoded alone is refused with further bytes, which are counted
(`decode_append`).
-/

namespace SecurityKey.Cbor

variable {input : Bytes} {v : Value} {n : Nat}

/-- A measured item is at least one byte long. -/
theorem one_le_of_decodePrefix (h : decodePrefix input = .ok (v, n)) : 1 ≤ n := by
  obtain ⟨hn, hread⟩ := decodePrefix_eq_ok_iff.mp h
  have hsize := (takes_readItem maxLevels _ _ _ hread).size_le
  rw [List.length_drop] at hsize
  omega

/-- A measured item is no longer than the input. -/
theorem le_length_of_decodePrefix (h : decodePrefix input = .ok (v, n)) : n ≤ input.length :=
  (decodePrefix_eq_ok_iff.mp h).1

/-- A measured item does not depend on what follows. -/
theorem decodePrefix_extend (h : decodePrefix input = .ok (v, n)) (tail : Bytes) :
    decodePrefix (input ++ tail) = .ok (v, n) := by
  obtain ⟨hn, hread⟩ := decodePrefix_eq_ok_iff.mp h
  refine decodePrefix_eq_ok_iff.mpr ⟨?_, ?_⟩
  · rw [List.length_append]
    omega
  · rw [List.drop_append_of_le_length hn]
    exact (takes_readItem maxLevels _ _ _ hread).extend tail

/-- What is decoded alone is refused in front of other bytes. -/
theorem decode_append (h : decode input = .ok v) {tail : Bytes} (ht : tail ≠ []) :
    decode (input ++ tail) = .error (.trailingBytes tail.length) := by
  have hprefix := decodePrefix_extend (decode_eq_ok_iff.mp h) tail
  have hne : input.length ≠ (input ++ tail).length := by simpa using ht
  have hrest : (input ++ tail).length - input.length = tail.length := by simp
  rw [decode, hprefix]
  simp only [bind, Except.bind, if_neg hne, hrest]

/-- **Items do not depend on what follows.** A measured item ends at a position behind its first byte and not behind
the end, with the rest of the input after it; and whatever is put behind the input, the same item is found with the same
length. So what is decoded alone is refused with anything behind it, by the number of bytes that are too many. -/
theorem decodePrefix_stable :
    (∀ (input : Bytes) (v : Value) (n : Nat), decodePrefix input = .ok (v, n) →
      1 ≤ n ∧ n ≤ input.length ∧ readItem maxLevels input = some (v, input.drop n) ∧
        ∀ tail, decodePrefix (input ++ tail) = .ok (v, n)) ∧
    ∀ (input : Bytes) (v : Value), decode input = .ok v → ∀ tail, tail ≠ [] →
      decode (input ++ tail) = .error (.trailingBytes tail.length) := by
  constructor
  · intro input v n h
    obtain ⟨hn, hread⟩ := decodePrefix_eq_ok_iff.mp h
    exact ⟨one_le_of_decodePrefix h, hn, hread, decodePrefix_extend h⟩
  · intro input v h tail ht
    exact decode_append h ht

/-- A string without a length ends in front of its break byte, which an array around it takes for its own. -/
theorem decodePrefix_stable_breakByte :
    decodePrefix ([0x5f, 0x41, 0xaa, 0xff] ++ [0x00]) = .ok (.bytes [0xaa], 3) ∧
      decode ([0x9f, 0x5f, 0x41, 0xaa, 0xff] ++ [0xff]) = .error (.trailingBytes 1) := by
  have hstring : decodePrefix [0x5f, 0x41, 0xaa, 0xff] = .ok (.bytes [0xaa], 3) := rfl
  have harray : decode [0x9f, 0x5f, 0x41, 0xaa, 0xff] = .ok (.array [.bytes [0xaa]]) := rfl
  obtain ⟨-, -, -, hextend⟩ := decodePrefix_stable.1 _ _ _ hstring
  exact ⟨hextend [0x00], decodePrefix_stable.2 _ _ harray [0xff] (List.cons_ne_nil 0xff [])⟩

end SecurityKey.Cbor
