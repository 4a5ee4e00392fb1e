import SecurityKey.Bytes

/-!
# The bytes of a text

In UTF-8 a character of ASCII is its own byte. Any other is made of bytes that have their highest bit set, and not all
of the next four (`Bytes.toNat_of_mem_utf8EncodeChar`).

- a zero byte stands for the character zero and for nothing else. So what comes before the first zero byte of a text is
  itself a text: the characters before the first zero (`Bytes.takeWhile_ofString`);
- the greatest bytes stand nowhere in a text (`Bytes.toNat_lt_of_mem_ofString`), so that they can be put behind it.
-/

namespace SecurityKey

/-- The characters of a text before the first zero. -/
def beforeZero (s : String) : String := String.ofList (s.toList.takeWhile (·.toNat ≠ 0))

namespace Bytes

theorem ofString_ofList (l : List Char) : ofString (String.ofList l) = l.flatMap String.utf8EncodeChar := by
  rw [ofString, String.toByteArray_ofList, List.utf8Encode]
  simp

theorem ofString_eq_flatMap (s : String) : ofString s = s.toList.flatMap String.utf8EncodeChar := by
  rw [← ofString_ofList, String.ofList_toList]

theorem utf8EncodeChar_of_zero {c : Char} (h : c.toNat = 0) : String.utf8EncodeChar c = [0] := by
  have hc : c.val.toNat = 0 := h
  simp [String.utf8EncodeChar, hc]

/-- A character of ASCII is its own byte. The bytes of any other have their highest bit set, and not all of the next
four. -/
theorem toNat_of_mem_utf8EncodeChar {c : Char} {b : UInt8} (h : b ∈ String.utf8EncodeChar c) :
    b.toNat = c.toNat ∧ b.toNat < 0x80 ∨ 0x80 ≤ b.toNat ∧ b.toNat < 0xf8 := by
  have hc : c.toNat = c.val.toNat := rfl
  rw [hc]
  unfold String.utf8EncodeChar at h
  simp only at h
  split at h
  · rw [List.mem_singleton.mp h, UInt8.toNat_ofNat']
    omega
  · right
    split at h
    · simp only [List.mem_cons, List.not_mem_nil, or_false] at h
      rcases h with rfl | rfl <;> rw [UInt8.toNat_ofNat'] <;> omega
    · split at h
      · simp only [List.mem_cons, List.not_mem_nil, or_false] at h
        rcases h with rfl | rfl | rfl <;> rw [UInt8.toNat_ofNat'] <;> omega
      · simp only [List.mem_cons, List.not_mem_nil, or_false] at h
        rcases h with rfl | rfl | rfl | rfl <;> rw [UInt8.toNat_ofNat'] <;> omega

/-- No byte of another character is zero. -/
theorem ne_zero_of_mem_utf8EncodeChar {c : Char} (h : c.toNat ≠ 0) : ∀ b ∈ String.utf8EncodeChar c, b ≠ 0 := by
  rintro _ hb rfl
  have hb : 0 = c.toNat ∧ 0 < 0x80 ∨ 0x80 ≤ 0 ∧ 0 < 0xf8 := toNat_of_mem_utf8EncodeChar hb
  omega

/-- Bytes with all of the five highest bits set stand nowhere in a text. -/
theorem toNat_lt_of_mem_ofString {s : String} {b : UInt8} (h : b ∈ ofString s) : b.toNat < 0xf8 := by
  rw [ofString_eq_flatMap] at h
  obtain ⟨c, -, hb⟩ := List.mem_flatMap.mp h
  rcases toNat_of_mem_utf8EncodeChar hb with ⟨-, hb⟩ | ⟨-, hb⟩ <;> omega

theorem takeWhile_flatMap (l : List Char) : (l.flatMap String.utf8EncodeChar).takeWhile (· ≠ 0) =
    (l.takeWhile (·.toNat ≠ 0)).flatMap String.utf8EncodeChar := by
  induction l with
  | nil => rfl
  | cons c rest ih =>
    by_cases h : c.toNat = 0
    · simp [utf8EncodeChar_of_zero h, h]
    · have hall : ∀ b ∈ String.utf8EncodeChar c, decide (b ≠ 0) = true :=
        fun b hb => decide_eq_true (ne_zero_of_mem_utf8EncodeChar h b hb)
      rw [List.flatMap_cons, List.takeWhile_append_of_pos hall, ih, List.takeWhile_cons_of_pos (by simpa using h),
        List.flatMap_cons]

/-- What comes before the first zero byte. -/
theorem takeWhile_ofString (s : String) : (ofString s).takeWhile (· ≠ 0) = ofString (beforeZero s) := by
  rw [ofString_eq_flatMap, takeWhile_flatMap, beforeZero, ofString_ofList]

end Bytes

/-- A text without the character zero is all before it. -/
theorem beforeZero_eq_self {s : String} (h : ∀ c ∈ s.toList, c.toNat ≠ 0) : beforeZero s = s := by
  have hall : (s.toList ++ []).takeWhile (·.toNat ≠ 0) = s.toList ++ [].takeWhile (·.toNat ≠ 0) :=
    List.takeWhile_append_of_pos fun c hc => decide_eq_true (h c hc)
  simp only [List.append_nil, List.takeWhile_nil] at hall
  rw [beforeZero, hall, String.ofList_toList]

end SecurityKey
