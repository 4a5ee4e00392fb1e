import SecurityKey.Piv.Tlv
import SecurityKey.Proofs.Action
import SecurityKey.Proofs.LengthOctets

/-!
# Tagged data read and written

- tagged data are read exactly where they are spelled in one of the three forms of lengths, with what follows them left
  over (`Tlv.read_eq_ok_iff`); they are written in one of these forms, up to 65535 bytes (`Tlv.exists_encode`);
- a search among tagged data finds the first of its kind (`Tlv.find?_spellAll`);
- as a loop (`Tlv.scan`), the search ends within one pass for every two bytes (`Tlv.scan_eq`).
-/

namespace SecurityKey.Piv.Tlv

open Action (bind_eq_ok_iff)

variable {n : Nat} {tag : UInt8} {octets input rest b : Bytes} {t : Tlv} {ts : List Tlv}

/-! ## Reading -/

/-- A length that is announced is read. -/
theorem readLength_of_octets (h : LengthOctets n octets) (rest : Bytes) :
    readLength (octets ++ rest) = .ok (n, rest) := by
  cases h with
  | short n h =>
    have h81 : n ≠ 0x81 := UInt8.ne_of_lt (UInt8.lt_trans h (by decide))
    have h82 : n ≠ 0x82 := UInt8.ne_of_lt (UInt8.lt_trans h (by decide))
    simp [readLength, h]
  | oneByte n => rfl
  | twoBytes hi lo => rfl

/-- A length is read exactly where it is announced. -/
theorem readLength_eq_ok_iff :
    readLength input = .ok (n, rest) ↔ ∃ octets, LengthOctets n octets ∧ input = octets ++ rest := by
  constructor
  · intro h
    unfold readLength at h
    simp only at h
    split at h
    · cases h
    · split at h
      · cases h
        exact ⟨_, .oneByte _, rfl⟩
      · cases h
    · split at h
      · cases h
        exact ⟨_, .twoBytes _ _, rfl⟩
      · cases h
    · split at h
      · rename_i hshort
        cases h
        exact ⟨_, .short _ hshort, rfl⟩
      · cases h
  · rintro ⟨octets, h, rfl⟩
    exact readLength_of_octets h rest

/-- The bytes are the tag, the length in one of its forms, and the data. -/
def Spells (t : Tlv) (b : Bytes) : Prop := IsTagged t.tag t.value b

/-- Tag and length take four bytes at most. -/
theorem Spells.length_le (h : t.Spells b) : b.length ≤ t.value.length + 4 := by
  obtain ⟨octets, ho, rfl⟩ := h
  have := ho.length_le
  simp only [List.cons_append, List.length_cons, List.length_append]
  omega

/-- Tagged data are read exactly where they are spelled. -/
theorem read_eq_ok_iff : read input = .ok (t, rest) ↔ ∃ b, t.Spells b ∧ input = b ++ rest := by
  constructor
  · intro h
    cases input with
    | nil => cases h
    | cons tag input =>
      obtain ⟨⟨n, body⟩, hlength, hvalue⟩ := bind_eq_ok_iff.mp h
      obtain ⟨octets, ho, rfl⟩ := readLength_eq_ok_iff.mp hlength
      simp only at hvalue
      split at hvalue
      · rename_i value tail hsplit
        cases hvalue
        obtain ⟨rfl, rfl⟩ := Bytes.split?_eq_some_iff.mp hsplit
        exact ⟨tag :: octets ++ value, ⟨octets, ho, rfl⟩, by simp⟩
      · cases hvalue
  · rintro ⟨b, ⟨octets, h, rfl⟩, rfl⟩
    have hsplit : Bytes.split? t.value.length (t.value ++ rest) = some (t.value, rest) :=
      Bytes.split?_eq_some_iff.mpr ⟨rfl, rfl⟩
    have hlength := readLength_of_octets h (t.value ++ rest)
    show read (t.tag :: (octets ++ t.value ++ rest)) = _
    rw [List.append_assoc, read, hlength]
    simp only [bind, Except.bind, hsplit]
    rfl

theorem read_of_spells (h : t.Spells b) (rest : Bytes) : read (b ++ rest) = .ok (t, rest) :=
  read_eq_ok_iff.mpr ⟨b, h, rfl⟩

/-! ## Writing -/

/-- The shortest form announces the length, when two bytes hold it. -/
theorem exists_encodeLength (h : n ≤ 65535) : ∃ octets, encodeLength n = .ok octets ∧ LengthOctets n octets := by
  unfold encodeLength
  split
  · rename_i hshort
    exact ⟨_, rfl, .ofNat_short hshort⟩
  split
  · rename_i hone
    exact ⟨_, rfl, .ofNat_one hone⟩
  · rw [if_pos (by omega)]
    exact ⟨_, rfl, .ofNat_two h⟩

/-- Up to 65535 bytes of data can be written. -/
theorem exists_encode (h : t.value.length ≤ 65535) : ∃ b, t.encode = .ok b ∧ t.Spells b := by
  obtain ⟨octets, hwrite, ho⟩ := exists_encodeLength h
  refine ⟨t.tag :: octets ++ t.value, ?_, octets, ho, rfl⟩
  rw [encode, hwrite]
  rfl

/-! ## Searching -/

/-- The bytes are tagged data one after the other. -/
inductive SpellAll : List Tlv → Bytes → Prop
  | nil : SpellAll [] []
  | cons {t : Tlv} {ts : List Tlv} {b rest : Bytes} (h : t.Spells b) (hs : SpellAll ts rest) :
    SpellAll (t :: ts) (b ++ rest)

theorem Spells.ne_nil (h : t.Spells b) (rest : Bytes) : b ++ rest ≠ [] := by
  obtain ⟨octets, -, rfl⟩ := h
  exact List.cons_ne_nil _ _

/-- One step of a search. -/
theorem find?_of_read (h : read input = .ok (t, rest)) :
    find? tag input = if t.tag = tag then .ok (some t.value) else find? tag rest := by
  have hne : input ≠ [] := by
    rintro rfl
    cases h
  rw [find?, if_neg hne]
  split
  · rename_i e he
    rw [h] at he
    cases he
  · rename_i t' rest' he
    rw [h] at he
    cases he
    rfl

theorem find?_of_error {e : Error} (hne : input ≠ []) (h : read input = .error e) : find? tag input = .error e := by
  rw [find?, if_neg hne]
  split
  · rename_i e' he
    rw [h] at he
    cases he
    rfl
  · rename_i t' rest' he
    rw [h] at he
    cases he

/-- Among tagged data the first of its kind is found. -/
theorem find?_spellAll (h : SpellAll ts b) :
    find? tag b = .ok ((ts.find? fun t => t.tag = tag).map (·.value)) := by
  induction h with
  | nil => rw [find?, if_pos rfl]; rfl
  | cons h hs ih =>
    rename_i t ts b rest
    rw [find?_of_read (read_of_spells h rest), List.find?_cons]
    by_cases ht : t.tag = tag
    · simp [ht]
    · simp [ht, ih]

/-- The search as a loop that is broken off after a number of passes: there is no outcome when it has not ended then. -/
def scan (tag : UInt8) : (passes : Nat) → Bytes → Option (Except Error (Option Bytes))
  | 0, input => if input = [] then some (.ok none) else none
  | passes + 1, input =>
    if input = [] then some (.ok none)
    else
      match read input with
      | .error e => some (.error e)
      | .ok (t, rest) => if t.tag = tag then some (.ok (some t.value)) else scan tag passes rest

/-- What is read takes two bytes at least. -/
theorem length_add_two_le (h : read input = .ok (t, rest)) : rest.length + 2 ≤ input.length := by
  obtain ⟨b, ⟨octets, ho, rfl⟩, rfl⟩ := read_eq_ok_iff.mp h
  have := ho.length_pos
  simp only [List.cons_append, List.length_cons, List.length_append]
  omega

/-- The loop ends on every input. -/
theorem scan_eq {passes : Nat} (h : input.length ≤ 2 * passes) : scan tag passes input = some (find? tag input) := by
  induction passes generalizing input with
  | zero =>
    obtain rfl : input = [] := List.eq_nil_of_length_eq_zero (by omega)
    rw [scan, find?, if_pos rfl, if_pos rfl]
  | succ passes ih =>
    rw [scan]
    by_cases hne : input = []
    · rw [find?, if_pos hne, if_pos hne]
    rw [if_neg hne]
    cases hread : read input with
    | error e => rw [find?_of_error hne hread]
    | ok r =>
      obtain ⟨t, rest⟩ := r
      have hshorter := length_add_two_le hread
      rw [find?_of_read hread]
      simp only
      by_cases ht : t.tag = tag
      · rw [if_pos ht, if_pos ht]
      · rw [if_neg ht, if_neg ht]
        exact ih (by omega)

end SecurityKey.Piv.Tlv
