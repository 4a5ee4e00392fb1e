import SecurityKey.Proofs.Cbor.Canonical
import SecurityKey.Proofs.Cbor.Float
import SecurityKey.Proofs.Cbor.Reading

/-!
# Items written and read back

- an item that is written is read back in canonical form when there are enough levels, and refused otherwise
  (`readItem_encode`);
- so decoding what was encoded brings the canonical form or an error, by the levels the item needs (`decode_encode`).
-/

namespace SecurityKey.Cbor

open Value

variable {levels n : Nat} {tail : Bytes}

/-! ## Items by kind -/

theorem readItem_unsigned (hn : n < 2 ^ 64) :
    readItem (levels + 1) (header 0 n ++ tail) = some (.unsigned (.ofNat n), tail) := by
  obtain ⟨first, digits, hh, hmajor, -, hargument⟩ := header_cases (Nat.zero_lt_succ 7) hn
  rw [hh, List.cons_append, readItem.eq_def]
  simp [hmajor, hargument]

theorem readItem_negative (hn : n < 2 ^ 64) :
    readItem (levels + 1) (header 1 n ++ tail) = some (.negative (.ofNat n), tail) := by
  obtain ⟨first, digits, hh, hmajor, -, hargument⟩ := header_cases (m := 1) (by decide) hn
  rw [hh, List.cons_append, readItem.eq_def]
  simp [hmajor, hargument]

theorem readItem_bytes {b : Bytes} (hb : b.length < 2 ^ 64) :
    readItem (levels + 1) (header 2 b.length ++ (b ++ tail)) = some (.bytes b, tail) := by
  obtain ⟨first, digits, hh, hmajor, hinfo, hargument⟩ := header_cases (m := 2) (by decide) hb
  have hinfo : first.toNat % 32 ≠ 31 := by omega
  rw [hh, List.cons_append, readItem.eq_def]
  simp [hmajor, hinfo, readString_append hargument]

theorem readItem_text {s : String} (hs : (Bytes.ofString s).length < 2 ^ 64) :
    readItem (levels + 1) (header 3 (Bytes.ofString s).length ++ (Bytes.ofString s ++ tail)) =
      some (.text s, tail) := by
  obtain ⟨first, digits, hh, hmajor, hinfo, hargument⟩ := header_cases (m := 3) (by decide) hs
  have hinfo : first.toNat % 32 ≠ 31 := by omega
  rw [hh, List.cons_append, readItem.eq_def]
  simp [hmajor, hinfo, readString_append hargument, textItem, Bytes.toString?_ofString]

/-- An array takes a level of its own and one for its items. -/
theorem readItem_array (hn : n < 2 ^ 64) : readItem (levels + 2) (header 4 n ++ tail) =
    (readMany (readItem levels) n tail).map fun x => (.array x.1, x.2) := by
  obtain ⟨first, digits, hh, hmajor, hinfo, hargument⟩ := header_cases (m := 4) (by decide) hn
  have hinfo : first.toNat % 32 ≠ 31 := by omega
  rw [hh, List.cons_append, readItem.eq_def, Option.map_eq_bind]
  simp [hmajor, hinfo, readElements, hargument, Function.comp_def]

/-- A map takes a level of its own and one for its keys and values. -/
theorem readItem_map (hn : n < 2 ^ 64) : readItem (levels + 2) (header 5 n ++ tail) =
    (readMany (readEntry (readItem levels)) n tail).map fun x => (.map x.1, x.2) := by
  obtain ⟨first, digits, hh, hmajor, hinfo, hargument⟩ := header_cases (m := 5) (by decide) hn
  have hinfo : first.toNat % 32 ≠ 31 := by omega
  rw [hh, List.cons_append, readItem.eq_def, Option.map_eq_bind]
  simp [hmajor, hinfo, readElements, hargument, Function.comp_def]

/-- One level is not enough for an array or a map. -/
theorem readItem_one_of_container {major : Nat} (hm : major = 4 ∨ major = 5) (hn : n < 2 ^ 64) :
    readItem 1 (header major n ++ tail) = none := by
  obtain ⟨first, digits, hh, hmajor, -, -⟩ := header_cases (m := major) (by omega) hn
  rw [hh, List.cons_append, readItem.eq_def]
  rcases hm with rfl | rfl <;> simp [hmajor]

/-- A tag takes one level. -/
theorem readItem_tag (hn : n < 2 ^ 64) : readItem (levels + 1) (header 6 n ++ tail) =
    (readItem levels tail).map fun x => (taggedItem n x.1, x.2) := by
  obtain ⟨first, digits, hh, hmajor, -, hargument⟩ := header_cases (m := 6) (by decide) hn
  rw [hh, List.cons_append, readItem.eq_def, Option.map_eq_bind]
  simp [hmajor, hargument, Function.comp_def]

/-- A double is read from its shorter pattern. -/
theorem readFloat_narrow {f : Format} {width b : Nat} {bits : UInt64} (hf : f.IsShort)
    (hwidth : 1 + f.exponentBits + f.fractionBits = 8 * width) (hb : f.narrow? bits.toNat = some b) :
    readFloat f width (Bytes.ofNat width b ++ tail) = some (.float bits, tail) := by
  obtain ⟨hwiden, hlt⟩ := Format.widen_of_narrow? hf bits.toNat_lt hb
  have hlt : b < 256 ^ width := by rwa [hwidth, Nat.pow_mul] at hlt
  simp only [readFloat, readNat_ofNat hlt, Option.map_some, hwiden, UInt64.ofNat_toNat]

/-- A float is read from the narrowest format that holds it, or as the one NaN. -/
theorem readItem_float (bits : UInt64) :
    readItem (levels + 1) (encodeFloat bits ++ tail) = some (canon (.float bits), tail) := by
  unfold encodeFloat
  simp only
  rw [canon]
  by_cases hnan : Format.double.isNaN bits.toNat = true
  · rw [if_pos hnan, if_pos hnan, List.cons_append, readItem_simple (by decide)]
    have hread : readNat 2 ([0x7e, 0x00] ++ tail) = some (0x7e00, tail) := readNat_ofNat (n := 0x7e00) (by decide) tail
    have hwiden : UInt64.ofNat (Format.half.widen 0x7e00) = quietNaN := by decide
    show readFloat .half 2 ([0x7e, 0x00] ++ tail) = _
    simp only [readFloat, hread, Option.map_some, hwiden]
  · rw [if_neg hnan, if_neg hnan]
    split
    · rename_i b _ hb
      rw [List.cons_append, readItem_simple (by decide)]
      exact readFloat_narrow Format.isShort_half rfl hb
    · rename_i b _ hb
      rw [List.cons_append, readItem_simple (by decide)]
      exact readFloat_narrow Format.isShort_single rfl hb
    · rw [List.cons_append, readItem_simple (by decide)]
      have hinfo : (0xfb : UInt8).toNat % 32 = 27 := rfl
      have hlt : bits.toNat < 256 ^ 8 := bits.toNat_lt
      simp only [hinfo, readSimple, readNat_ofNat hlt, Option.map_some, UInt64.ofNat_toNat]

/-! ## Whole items -/

theorem need_pos (v : Value) : 0 < v.need := by
  cases v with
  | bignum | array | map | tag => rw [need]; omega
  | _ => exact Nat.one_pos

theorem taggedItem_of_ne {number : Nat} {content : Value} (h : ∀ b, content ≠ .bytes b) :
    taggedItem number content = .tag (.ofNat number) content := by
  unfold taggedItem
  split
  · exact absurd rfl (h _)
  · exact absurd rfl (h _)
  · rfl

/-- What a tag makes of an item does not depend on whether the item is canonical. -/
theorem canon_tag (number : UInt64) (content : Value) :
    canon (.tag number content) = taggedItem number.toNat (canon content) := by
  by_cases hb : ∃ b, content = .bytes b
  · obtain ⟨b, rfl⟩ := hb
    by_cases h2 : number = 2
    · subst h2
      rfl
    by_cases h3 : number = 3
    · subst h3
      rfl
    have h2' : number.toNat ≠ 2 := fun h => h2 (UInt64.toNat_inj.mp h)
    have h3' : number.toNat ≠ 3 := fun h => h3 (UInt64.toNat_inj.mp h)
    simp [canon, taggedItem, h2, h3, h2', h3']
  · have hne : ∀ b, canon content ≠ .bytes b := by
      intro b h
      exact hb ⟨b, eq_bytes_of_canon h⟩
    rw [taggedItem_of_ne hne, UInt64.ofNat_toNat, canon.eq_def]
    simp only
    split
    · exact absurd ⟨_, rfl⟩ hb
    · exact absurd ⟨_, rfl⟩ hb
    · rfl

/-- Without a level nothing is read. -/
theorem readItem_of_succ {v : Value}
    (h : ∀ levels tail, readItem (levels + 1) (v.encode ++ tail) =
      if v.need ≤ levels + 1 then some (v.canon, tail) else none) (levels : Nat) (tail : Bytes) :
    readItem levels (v.encode ++ tail) = if v.need ≤ levels then some (v.canon, tail) else none := by
  cases levels with
  | zero => rw [readItem, if_neg (Nat.not_le.mpr (need_pos v))]
  | succ levels => exact h levels tail

/-- An item that needs one level. -/
theorem readItem_of_one {v : Value} (hn : v.need = 1)
    (h : ∀ levels tail, readItem (levels + 1) (v.encode ++ tail) = some (v.canon, tail)) (levels : Nat)
    (tail : Bytes) :
    readItem levels (v.encode ++ tail) = if v.need ≤ levels then some (v.canon, tail) else none := by
  refine readItem_of_succ (fun levels tail => ?_) levels tail
  rw [hn, if_pos (Nat.le_add_left ..)]
  exact h levels tail

/-- An item that is written is read back in canonical form when there are enough levels, and refused otherwise. -/
theorem readItem_encode {v : Value} (h : v.Fits) :
    ∀ (levels : Nat) (tail : Bytes),
      readItem levels (v.encode ++ tail) = if v.need ≤ levels then some (v.canon, tail) else none := by
  induction v with
  | unsigned n =>
    refine readItem_of_one rfl fun levels tail => ?_
    rw [encode, readItem_unsigned n.toNat_lt, UInt64.ofNat_toNat]
    rfl
  | negative n =>
    refine readItem_of_one rfl fun levels tail => ?_
    rw [encode, readItem_negative n.toNat_lt, UInt64.ofNat_toNat]
    rfl
  | bignum isNegative magnitude =>
    refine readItem_of_succ fun levels tail => ?_
    have htag : bignumTag isNegative < 2 ^ 64 := by cases isNegative <;> decide
    have hdigits : (Bytes.stripZeros magnitude).length < 2 ^ 64 :=
      Nat.lt_of_le_of_lt (List.dropWhile_sublist _).length_le h
    rw [encode, need]
    simp only [List.append_assoc]
    rw [readItem_tag htag]
    cases levels with
    | zero => rfl
    | succ levels =>
      rw [readItem_bytes hdigits, if_pos (by omega)]
      cases isNegative <;> rfl
  | bytes b =>
    refine readItem_of_one rfl fun levels tail => ?_
    rw [encode, List.append_assoc, readItem_bytes h]
    rfl
  | text s =>
    refine readItem_of_one rfl fun levels tail => ?_
    rw [encode, List.append_assoc, readItem_text h]
    rfl
  | array items ih =>
    refine readItem_of_succ fun levels tail => ?_
    obtain ⟨hn, hitems⟩ := Nat.max_lt.mp h
    have hitems := (extentItems_lt (Nat.two_pow_pos 64)).mp hitems
    rw [encode_array, List.append_assoc, need, canon, canonItems_eq_map]
    cases levels with
    | zero => rw [readItem_one_of_container (.inl rfl) hn, if_neg (by omega)]
    | succ levels =>
      rw [readItem_array hn, readMany_flatMap fun v hv => ih v hv (hitems v hv) levels]
      by_cases hall : needItems items ≤ levels
      · rw [if_pos (needItems_le.mp hall), if_pos (by omega), Option.map_some]
      · rw [if_neg fun h => hall (needItems_le.mpr h), if_neg (by omega), Option.map_none]
  | map entries ih =>
    refine readItem_of_succ fun levels tail => ?_
    obtain ⟨hn, hentries⟩ := Nat.max_lt.mp h
    have hentries := (extentEntries_lt (Nat.two_pow_pos 64)).mp hentries
    have hperm : (inOrder entries).Perm entries := List.mergeSort_perm ..
    rw [encode_map, List.append_assoc, need, canon_map]
    cases levels with
    | zero => rw [readItem_one_of_container (.inr rfl) hn, if_neg (by omega)]
    | succ levels =>
      have hread : ∀ e ∈ inOrder entries, ∀ tail,
          readEntry (readItem levels) (encode e.1 ++ encode e.2 ++ tail) =
            if e.1.need ≤ levels ∧ e.2.need ≤ levels then some ((canon e.1, canon e.2), tail) else none := by
        intro e he
        have he := hperm.mem_iff.mp he
        exact readEntry_append (p := fun v : Value => v.need ≤ levels) ((ih e he).1 (hentries e he).1 levels)
          ((ih e he).2 (hentries e he).2 levels)
      have hneed : (∀ e ∈ inOrder entries, e.1.need ≤ levels ∧ e.2.need ≤ levels) ↔ needEntries entries ≤ levels := by
        simp only [needEntries_le, hperm.mem_iff]
      rw [readItem_map hn, ← hperm.length_eq, readMany_flatMap hread]
      by_cases hall : needEntries entries ≤ levels
      · rw [if_pos (hneed.mpr hall), if_pos (by omega), Option.map_some]
      · rw [if_neg fun h => hall (hneed.mp h), if_neg (by omega), Option.map_none]
  | tag number content ih =>
    refine readItem_of_succ fun levels tail => ?_
    rw [encode, List.append_assoc, readItem_tag number.toNat_lt, ih h, need, canon_tag]
    by_cases hn : content.need ≤ levels
    · rw [if_pos hn, if_pos (by omega), Option.map_some]
    · rw [if_neg hn, if_neg (by omega), Option.map_none]
  | float bits =>
    refine readItem_of_one rfl fun levels tail => ?_
    rw [encode, readItem_float]
  | bool b => cases b <;> exact readItem_of_one rfl fun levels tail => readItem_simple (by decide)
  | null => exact readItem_of_one rfl fun levels tail => readItem_simple (by decide)

/-! ## Decoding -/

/-- An item that is the whole input is decoded. -/
theorem decode_of_readItem {input : Bytes} {v : Value} (h : readItem maxLevels input = some (v, [])) :
    decode input = .ok v := by
  simp [decode, decodePrefix, h, bind, Except.bind]

/-- Input that does not begin with an item is malformed. -/
theorem decode_of_readItem_none {input : Bytes} (h : readItem maxLevels input = none) :
    decode input = .error .malformed := by
  simp [decode, decodePrefix, h, bind, Except.bind]

theorem decode_of_need_le {v : Value} (h : v.Fits) (hn : v.need ≤ 32) : decode v.encode = .ok v.canon := by
  have hread := readItem_encode h maxLevels []
  rw [List.append_nil] at hread
  exact decode_of_readItem (hread.trans (if_pos hn))

theorem decode_of_lt_need {v : Value} (h : v.Fits) (hn : 32 < v.need) : decode v.encode = .error .malformed := by
  have hread := readItem_encode h maxLevels []
  rw [List.append_nil] at hread
  exact decode_of_readItem_none (hread.trans (if_neg (Nat.not_le.mpr hn)))

/-- What was encoded is decoded to its canonical form, unless it needs too many levels. -/
theorem decode_encode {v : Value} (h : v.Fits) :
    decode v.encode = if v.need ≤ 32 then .ok v.canon else .error .malformed := by
  have hread := readItem_encode h maxLevels []
  rw [List.append_nil] at hread
  by_cases hn : v.need ≤ 32
  · rw [if_pos hn]
    exact decode_of_readItem (hread.trans (if_pos hn))
  · rw [if_neg hn]
    exact decode_of_readItem_none (hread.trans (if_neg hn))

/-- Entries come back in order, a magnitude without its leading zeros, and a tagged byte string as a bignum. -/
theorem decode_encode_entries :
    let v : Value := .map [(.text "b", .bignum true [0, 1]), (.unsigned 7, .tag 2 (.bytes [0]))]
    v.Fits ∧ decode v.encode =
      .ok (.map [(.unsigned 7, .bignum false [0]), (.text "b", .bignum true [1])]) := by
  have h : Value.Fits (.map [(.text "b", .bignum true [0, 1]), (.unsigned 7, .tag 2 (.bytes [0]))]) := by decide
  have hsort : canon (.map [(.text "b", .bignum true [0, 1]), (.unsigned 7, .tag 2 (.bytes [0]))]) =
      .map [(.unsigned 7, .bignum false [0]), (.text "b", .bignum true [1])] := by
    have hkeys : keyLE (encode (.text "b")) (encode (.unsigned 7)) = false := by decide
    have hdigits : Bytes.stripZeros [0, 1] = [1] := rfl
    simp [canon, canonEntries, List.mergeSort, hkeys, hdigits]
  exact ⟨h, (decode_encode h).trans ((if_pos (by decide)).trans (congrArg _ hsort))⟩

end SecurityKey.Cbor
