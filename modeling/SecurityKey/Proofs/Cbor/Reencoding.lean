import Mathlib.Data.List.DropRight
import SecurityKey.Proofs.Cbor.Prefix
import SecurityKey.Proofs.Cbor.RoundTrip
import SecurityKey.Proofs.Cbor.Spellings

/-!
# Items read and written again

A reader accepts many spellings of an item; what it has read is written in one of them, and read from there as the same
item up to spelling.

- `Value.Regular n`: an item that needs at most `n` levels and is respelled in its canonical form. All that is read
  within `n` levels is regular (`takes_readItem`), since a byte string under a bignum tag is read as a bignum;
- an item is taken off the front of the input, so that its length is the position where the rest of the input begins
  (`decodePrefix_eq_ok_iff`);
- what was decoded can be encoded and decoded again, which respells it and keeps its encoding
  (`decode_encode_of_decoded`).
-/

namespace SecurityKey.Cbor

/-! ## Regular items -/

namespace Value

/-- An item that needs at most `n` levels, and is respelled in its canonical form. -/
structure Regular (n : Nat) (v : Value) : Prop where
  need_le : v.need ≤ n
  respelled : Rewrites Respelling v v.canon

variable {n : Nat}

theorem regular_of_canonical {v : Value} (hn : v.need = 1) (hv : v.canon = v) : Regular (n + 1) v := by
  refine ⟨by omega, ?_⟩
  rw [hv]
  exact .refl

theorem regular_float (bits : UInt64) : Regular (n + 1) (.float bits) := by
  by_cases hnan : Format.double.isNaN bits.toNat = true
  · refine ⟨Nat.le_add_left .., ?_⟩
    rw [canon, if_pos hnan]
    exact .single (.top (.nan hnan (by decide)))
  · exact regular_of_canonical rfl (by rw [canon, if_neg hnan])

theorem regular_bignum (isNegative : Bool) (magnitude : Bytes) : Regular (n + 2) (.bignum isNegative magnitude) := by
  have hstrip : Bytes.stripZeros (Bytes.stripZeros magnitude) = Bytes.stripZeros magnitude :=
    List.dropWhile_idempotent ..
  exact ⟨Nat.le_add_left .., .single (.top (.zeros isNegative hstrip.symm))⟩

theorem regular_array {items : List Value} (h : ∀ v ∈ items, Regular n v) : Regular (n + 2) (.array items) := by
  constructor
  · have := needItems_le.mpr fun v hv => (h v hv).need_le
    rw [need]
    omega
  · rw [canon, canonItems_eq_map]
    exact rewrites_array [] fun v hv => (h v hv).respelled

/-- The entries of a map are put in order, and then respelled where they are. -/
theorem regular_map {entries : List (Value × Value)} (h : ∀ e ∈ entries, Regular n e.1 ∧ Regular n e.2) :
    Regular (n + 2) (.map entries) := by
  constructor
  · have := needEntries_le.mpr fun e he => And.intro (h e he).1.need_le (h e he).2.need_le
    rw [need]
    omega
  · have horder : Inside Respelling (.map entries) (.map (inOrder entries)) :=
      .top (.order (rearranged_inOrder entries))
    rw [canon_map]
    refine .head horder (rewrites_map [] fun e he => ?_)
    have he := (rearranged_inOrder entries).perm.mem_iff.mpr he
    exact ⟨(h e he).1.respelled, (h e he).2.respelled⟩

/-- What a tag makes of a regular item is regular, since it makes bignums of byte strings. -/
theorem regular_taggedItem {number : Nat} {content : Value} (hnumber : number < 2 ^ 64) (h : Regular n content) :
    Regular (n + 1) (taggedItem number content) := by
  unfold taggedItem
  split
  · obtain ⟨m, rfl⟩ : ∃ m, n = m + 1 := Nat.exists_eq_add_of_le' h.need_le
    exact regular_bignum ..
  · obtain ⟨m, rfl⟩ : ∃ m, n = m + 1 := Nat.exists_eq_add_of_le' h.need_le
    exact regular_bignum ..
  · rename_i h2 h3
    have hcanon : canon (.tag (.ofNat number) content) = .tag (.ofNat number) (canon content) := by
      rw [canon_tag, UInt64.toNat_ofNat', Nat.mod_eq_of_lt hnumber]
      unfold taggedItem
      split
      · rename_i b hb
        exact absurd (eq_bytes_of_canon hb) (h2 b rfl)
      · rename_i b hb
        exact absurd (eq_bytes_of_canon hb) (h3 b rfl)
      · rfl
    constructor
    · have := h.need_le
      rw [need]
      omega
    · rw [hcanon]
      exact rewrites_tag _ h.respelled

/-! ## Lengths in what is read -/

theorem extent_array_le (items : List Value) : (array items).extent ≤ (items.map fun v => v.extent + 1).sum := by
  rw [extent]
  induction items with
  | nil => exact Nat.le_refl _
  | cons v rest ih =>
    rw [List.length_cons, extentItems, List.map_cons, List.sum_cons]
    omega

theorem extent_map_le (entries : List (Value × Value)) :
    (map entries).extent ≤ (entries.map fun e => e.1.extent + 1 + (e.2.extent + 1)).sum := by
  rw [extent]
  induction entries with
  | nil => exact Nat.le_refl _
  | cons e rest ih =>
    obtain ⟨k, v⟩ := e
    rw [List.length_cons, extentEntries, List.map_cons, List.sum_cons]
    simp only
    omega

theorem extent_taggedItem (number : Nat) (content : Value) : (taggedItem number content).extent = content.extent := by
  unfold taggedItem
  split <;> rfl

end Value

open Value

/-! ## Items -/

/-- A text that was read has the bytes that were read for it. -/
theorem takes_textItem {n : Nat} (b : Bytes) :
    Reader.Takes (fun input => (textItem b).bind fun v => some (v, input)) (Regular (n + 1))
      fun v => v.extent - b.length := by
  cases htext : textItem b with
  | none => exact Reader.takes_none
  | some v =>
    obtain ⟨s, hs, rfl⟩ := Option.map_eq_some_iff.mp htext
    have hextent : (Value.text s).extent = b.length := congrArg List.length (Bytes.ofString_of_toString? hs)
    exact Reader.takes_some (regular_of_canonical rfl rfl) (by rw [hextent, Nat.sub_self])

/-- The items of the last major type have no length. -/
theorem takes_readSimple {n : Nat} (info : Nat) : Reader.Takes (readSimple info) (Regular (n + 1)) Value.extent := by
  have hfloat : ∀ (width : Nat) (bits : Nat → UInt64), Reader.Takes
      (fun input => (readNat width input).map fun read => (Value.float (bits read.1), read.2)) (Regular (n + 1))
        Value.extent := fun width bits =>
    (takes_readNat width).map fun x _ => ⟨regular_float _, Nat.le_refl 0⟩
  unfold readSimple
  split
  · exact Reader.takes_some (regular_of_canonical rfl rfl) rfl
  · exact Reader.takes_some (regular_of_canonical rfl rfl) rfl
  · exact Reader.takes_some (regular_of_canonical rfl rfl) rfl
  · exact Reader.takes_some (regular_of_canonical rfl rfl) rfl
  · exact hfloat 2 fun bits => .ofNat (Format.half.widen bits)
  · exact hfloat 4 fun bits => .ofNat (Format.single.widen bits)
  · exact hfloat 8 .ofNat
  · exact Reader.takes_none

/-- What follows the first byte of an item, when fewer levels are regular. The major type says what it is. -/
theorem takes_readItem_cons {levels : Nat}
    (ih : ∀ n < levels + 1, Reader.Takes (readItem n) (Regular n) fun v => v.extent + 1) (first : UInt8) :
    Reader.Takes (fun input => readItem (levels + 1) (first :: input)) (Regular (levels + 1)) Value.extent := by
  have hbytes : ∀ b, Reader.Takes (fun input => some (Value.bytes b, input)) (Regular (levels + 1))
      fun v => v.extent - b.length := fun b =>
    Reader.takes_some (regular_of_canonical rfl rfl) (Nat.sub_self _)
  unfold readItem
  dsimp only
  split
  · exact (takes_readArgument _).bind fun n _ =>
      Reader.takes_some (x := Value.unsigned (.ofNat n)) (regular_of_canonical rfl rfl) rfl
  · exact (takes_readArgument _).bind fun n _ =>
      Reader.takes_some (x := Value.negative (.ofNat n)) (regular_of_canonical rfl rfl) rfl
  · split
    · exact (takes_readChunks first 0x40 levels).bind fun b _ => hbytes b
    · exact (takes_readString _).bind fun b _ => hbytes b
  · split
    · exact (takes_readChunks first 0x60 levels).bind fun b _ => takes_textItem b
    · exact (takes_readString _).bind fun b _ => takes_textItem b
  · cases levels with
    | zero => exact Reader.takes_none
    | succ levels =>
      have hitem := ih levels (by omega)
      exact (takes_readElements hitem _).bind fun items hitems =>
        Reader.takes_some (regular_array hitems) (Nat.sub_eq_zero_of_le (extent_array_le items))
  · cases levels with
    | zero => exact Reader.takes_none
    | succ levels =>
      have hitem := ih levels (by omega)
      exact (takes_readElements (takes_readEntry hitem) _).bind fun entries hentries =>
        Reader.takes_some (regular_map hentries) (Nat.sub_eq_zero_of_le (extent_map_le entries))
  · have hitem := ih levels (by omega)
    exact (takes_readArgument _).bind fun number hnumber => hitem.bind fun content hcontent =>
      Reader.takes_some (regular_taggedItem hnumber hcontent) (by rw [extent_taggedItem]; omega)
  · exact takes_readSimple _

/-- What is read within some levels needs no more of them and is regular, and every length in it is less than that of
what was read. -/
theorem takes_readItem (levels : Nat) : Reader.Takes (readItem levels) (Regular levels) fun v => v.extent + 1 := by
  induction levels using Nat.strongRecOn with
  | ind levels ih =>
    intro input v rest h
    cases levels with
    | zero => cases h
    | succ levels =>
      cases input with
      | nil => cases h
      | cons first input =>
        have htook := takes_readItem_cons ih first _ _ _ h
        refine ⟨htook.holds, htook.suffix.trans (List.suffix_cons ..), ?_, htook.extend⟩
        have := htook.size_le
        simp only [List.length_cons]
        omega

/-! ## Positions -/

section Positions

variable {input : Bytes} {v : Value} {n : Nat}

/-- An item is measured as `n` bytes long when it is read with the input from there on as the rest. -/
theorem decodePrefix_eq_ok_iff :
    decodePrefix input = .ok (v, n) ↔ n ≤ input.length ∧ readItem maxLevels input = some (v, input.drop n) := by
  unfold decodePrefix
  cases hread : readItem maxLevels input with
  | none => simp
  | some r =>
    obtain ⟨w, rest⟩ := r
    obtain ⟨front, rfl⟩ := (takes_readItem maxLevels _ _ _ hread).suffix
    have hlength : (front ++ rest).length - rest.length = front.length := by simp
    simp only [hlength, Except.ok.injEq, Prod.mk.injEq, Option.some.injEq]
    constructor
    · rintro ⟨rfl, rfl⟩
      exact ⟨by simp, rfl, List.drop_left.symm⟩
    · rintro ⟨hn, rfl, hrest⟩
      have hdrop := congrArg List.length hrest
      rw [List.length_drop] at hdrop
      rw [List.length_append] at hn hdrop
      exact ⟨rfl, by omega⟩

/-- What is decoded alone is an item as long as the input. -/
theorem decode_eq_ok_iff : decode input = .ok v ↔ decodePrefix input = .ok (v, input.length) := by
  unfold decode
  cases h : decodePrefix input with
  | error e => simp [bind, Except.bind]
  | ok r =>
    obtain ⟨w, n⟩ := r
    simp only [bind, Except.bind]
    by_cases hn : n = input.length <;> simp [hn]

end Positions

/-! ## Decoding again -/

/-- What was decoded is regular, and its lengths fit where that of the input does. -/
theorem regular_of_decode {input : Bytes} {v : Value} (h : decode input = .ok v) :
    Regular 32 v ∧ v.extent < input.length := by
  obtain ⟨-, hread⟩ := decodePrefix_eq_ok_iff.mp (decode_eq_ok_iff.mp h)
  have htook := takes_readItem maxLevels _ _ _ hread
  have hsize := htook.size_le
  exact ⟨htook.holds, by omega⟩

/-- **What was decoded can be encoded and decoded again.** Whatever spelling an item was decoded from, its encoding is
decoded: to the item up to the order of entries, leading zeros of magnitudes and the choice of a NaN, and to an item
with the same encoding. (The length of the input fits 64 bits, as all lengths in memory do.) -/
theorem decode_encode_of_decoded {input : Bytes} {v : Value} (hlength : input.length < 2 ^ 64)
    (h : decode input = .ok v) :
    ∃ w, decode v.encode = .ok w ∧ Rewrites Respelling v w ∧ w.encode = v.encode := by
  obtain ⟨hregular, hextent⟩ := regular_of_decode h
  have hfits : v.Fits := Nat.lt_trans hextent hlength
  refine ⟨v.canon, decode_of_need_le hfits hregular.need_le, hregular.respelled, ?_⟩
  exact (encode_eq_of_rewrites (fun _ _ => encode_eq_of_respelling) hregular.respelled).symm

/-- A map without a length, with keys out of order, a header that is too long, a padded magnitude, a chunked string
and a NaN of its own. -/
theorem decode_encode_of_decoded_loose :
    let input : Bytes := [0xbf, 0x18, 0x07, 0xc2, 0x42, 0x00, 0x05, 0x01, 0xfb, 0x7f, 0xf8, 0x00, 0x00, 0x00, 0x00,
      0x00, 0x01, 0x20, 0x9f, 0x5f, 0x41, 0xaa, 0xff, 0xff]
    let v : Value := .map [(.unsigned 7, .bignum false [0x00, 0x05]), (.unsigned 1, .float 0x7ff8000000000001),
      (.negative 0, .array [.bytes [0xaa]])]
    input.length < 2 ^ 64 ∧ decode input = .ok v ∧
      ∃ w, decode v.encode = .ok w ∧ Rewrites Respelling v w ∧ w.encode = v.encode := by
  intro input v
  have hlength : input.length < 2 ^ 64 := by decide
  have hread : decode input = .ok v := rfl
  exact ⟨hlength, hread, decode_encode_of_decoded hlength hread⟩

end SecurityKey.Cbor
