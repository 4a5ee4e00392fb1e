import Mathlib.Algebra.Group.Int.Defs
import SecurityKey.Cbor.Fields
import SecurityKey.Ctap.Message
import SecurityKey.Proofs.Cbor.Lookup
import SecurityKey.Proofs.Cbor.Record
import SecurityKey.Proofs.Cbor.RoundTrip

/-!
# Messages written and read back

- `Value.Stable n v`: the item is in canonical form and needs at most `n` levels, so that it is decoded to itself
  (`Stable.decode`); strings and small numbers are stable, and so are records of stable items (`stable_record`);
- lists and optional parts are read back when their items are (`filterMap_map_of_read`, `bind_canon`, `mapM_canon`);
- a record is brought into canonical form field by field (`canon_record`);
- the fields of a record are found under their keys (`Fields.get?_ofRecord`), also in its canonical form
  (`Fields.ofValue_canon_record`);
- an answer is parsed to the item it was made of (`parseResponse_response`).
-/

namespace SecurityKey.Cbor

namespace Value

/-! ## Keys -/

/-- Keys of a record: in order, all different, and numbers of 64 bits; nor are there too many of them to count. -/
structure Keys (keys : List Int) : Prop where
  inOrder : KeysInOrder keys
  nodup : keys.Nodup
  small : ∀ k ∈ keys, -2 ^ 63 ≤ k ∧ k < 2 ^ 63
  few : keys.length < 2 ^ 64

instance (keys : List Int) : Decidable (Keys keys) :=
  decidable_of_iff (KeysInOrder keys ∧ keys.Nodup ∧ (∀ k ∈ keys, -2 ^ 63 ≤ k ∧ k < 2 ^ 63) ∧ keys.length < 2 ^ 64)
    ⟨fun h => ⟨h.1, h.2.1, h.2.2.1, h.2.2.2⟩, fun h => ⟨h.inOrder, h.nodup, h.small, h.few⟩⟩

/-- A number of 64 bits is no bignum. -/
theorem ofInt_cases {k : Int} (h : -2 ^ 63 ≤ k ∧ k < 2 ^ 63) :
    (∃ n : UInt64, ofInt k = .unsigned n ∧ (n.toNat : Int) = k) ∨
      ∃ n : UInt64, ofInt k = .negative n ∧ -1 - (n.toNat : Int) = k := by
  cases k with
  | ofNat m =>
    have hm : m < 2 ^ 64 := by
      have : (m : Int) < 2 ^ 63 := h.2
      omega
    refine .inl ⟨.ofNat m, if_pos hm, ?_⟩
    rw [UInt64.toNat_ofNat', Nat.mod_eq_of_lt hm]
    rfl
  | negSucc m =>
    have hm : m < 2 ^ 64 := by omega
    refine .inr ⟨.ofNat m, if_pos hm, ?_⟩
    rw [UInt64.toNat_ofNat', Nat.mod_eq_of_lt hm]
    omega

theorem toInt64?_ofInt {k : Int} (h : -2 ^ 63 ≤ k ∧ k < 2 ^ 63) : (ofInt k).toInt64? = some k := by
  rcases ofInt_cases h with ⟨n, hk, hn⟩ | ⟨n, hk, hn⟩
  all_goals
    rw [hk, toInt64?, toInt128?, hn]
    exact Option.filter_eq_some_iff.mpr ⟨rfl, decide_eq_true h⟩

theorem length_encode_ofInt_le {k : Int} (h : -2 ^ 63 ≤ k ∧ k < 2 ^ 63) : (encode (ofInt k)).length ≤ 9 := by
  rcases ofInt_cases h with ⟨n, hk, -⟩ | ⟨n, hk, -⟩
  all_goals
    rw [hk, encode]
    exact length_header_le ..

/-! ## Stable items -/

/-- An item in canonical form that needs at most `n` levels. -/
structure Stable (n : Nat) (v : Value) : Prop where
  fits : v.Fits
  canonical : v.canon = v
  need_le : v.need ≤ n

variable {n m : Nat} {v : Value}

theorem Stable.mono (h : Stable n v) (hn : n ≤ m) : Stable m v :=
  ⟨h.fits, h.canonical, Nat.le_trans h.need_le hn⟩

theorem Stable.decode (h : Stable 32 v) : decode v.encode = .ok v := by
  rw [decode_of_need_le h.fits h.need_le, h.canonical]

theorem stable_unsigned (k : UInt64) : Stable (n + 1) (.unsigned k) :=
  ⟨Nat.two_pow_pos 64, rfl, Nat.le_add_left ..⟩

theorem stable_ofInt {k : Int} (h : -2 ^ 63 ≤ k ∧ k < 2 ^ 63) : Stable (n + 1) (ofInt k) := by
  rcases ofInt_cases h with ⟨k, hk, -⟩ | ⟨k, hk, -⟩
  all_goals
    rw [hk]
    exact ⟨Nat.two_pow_pos 64, rfl, Nat.le_add_left ..⟩

theorem stable_bytes {b : Bytes} (h : b.length < 2 ^ 64) : Stable (n + 1) (.bytes b) :=
  ⟨h, rfl, Nat.le_add_left ..⟩

/-! ## Lists and optional parts -/

section Parts

variable {α : Type} {write : α → Value}

/-- An array of canonical items is canonical. -/
theorem canon_array_map (h : ∀ x, (write x).canon = write x) (xs : List α) :
    canon (.array (xs.map write)) = .array (xs.map write) := by
  rw [canon, canonItems_eq_map, List.map_map]
  congr 1
  apply List.map_congr_left
  intro x _
  exact h x

/-- An array needs two levels more than its items. -/
theorem need_array_map_le (h : ∀ x, (write x).need ≤ n) (xs : List α) : (array (xs.map write)).need ≤ n + 2 := by
  have hitems : needItems (xs.map write) ≤ n := by
    apply needItems_le.mpr
    intro v hv
    obtain ⟨x, -, rfl⟩ := List.mem_map.mp hv
    exact h x
  show 2 + needItems (xs.map write) ≤ n + 2
  omega

theorem canon_texts (ts : List String) : (texts ts).canon = .texts ts :=
  canon_array_map (fun _ => rfl) ts

theorem need_texts_le (ts : List String) : (texts ts).need ≤ 3 :=
  need_array_map_le (fun _ => Nat.le_refl 1) ts

/-- Items that are read one by one are read from their list. -/
theorem filterMap_map_of_read {read : Value → Option α} (h : ∀ x, read (write x) = some x) (xs : List α) :
    (xs.map write).filterMap read = xs := by
  induction xs with
  | nil => rfl
  | cons x rest ih => rw [List.map_cons, List.filterMap_cons, h, ih]

/-- An optional part of some kind is read from its canonical form. -/
theorem bind_canon {read : Value → Option α} (h : ∀ x, read (write x).canon = some x) (o : Option α) :
    ((o.map write).map canon).bind read = o := by
  cases o with
  | none => rfl
  | some x => exact h x

/-- An optional part with a reader of its own is read from its canonical form. -/
theorem mapM_canon {read : Value → Except Error α} (h : ∀ x, read (write x).canon = .ok x) (o : Option α) :
    ((o.map write).map canon).mapM read = .ok o := by
  cases o with
  | none => rfl
  | some x =>
    rw [Option.map_some, Option.map_some, Option.mapM_some, h]
    rfl

end Parts

/-! ## Records -/

variable {fields : List (Int × Option Value)}

/-- Every entry is a field that is present. -/
theorem mem_fieldEntries {e : Value × Value} (h : e ∈ fieldEntries fields) :
    ∃ f ∈ fields, e.1 = ofInt f.1 ∧ f.2 = some e.2 := by
  rw [fieldEntries, present, List.filterMap_map, List.mem_filterMap] at h
  obtain ⟨f, hf, he⟩ := h
  obtain ⟨v, hv, rfl⟩ := Option.map_eq_some_iff.mp he
  exact ⟨f, hf, rfl, hv⟩

/-- A record is brought into canonical form field by field. -/
theorem canon_record (hk : Keys (fields.map Prod.fst)) :
    canon (record fields) = record (fields.map fun f => (f.1, f.2.map canon)) := by
  have hentries : (fieldEntries fields).map (fun e => (canon e.1, canon e.2)) =
      fieldEntries (fields.map fun f => (f.1, f.2.map canon)) := by
    have hsmall := hk.small
    clear hk
    induction fields with
    | nil => rfl
    | cons f rest ih =>
      obtain ⟨key, value⟩ := f
      obtain ⟨hkey, hrest⟩ := List.forall_mem_cons.mp hsmall
      cases value with
      | none => exact ih hrest
      | some v =>
        rw [fieldEntries_some, List.map_cons, ih hrest, List.map_cons, Option.map_some, fieldEntries_some,
          (stable_ofInt (n := 0) hkey).canonical]
  rw [record, canon_map, ← fieldEntries, inOrder_fieldEntries hk.inOrder, hentries]
  rfl

theorem need_record_le (hk : Keys (fields.map Prod.fst))
    (h : ∀ f ∈ fields, ∀ v, f.2 = some v → v.need ≤ n) : (record fields).need ≤ n + 2 := by
  have hentries : needEntries (fieldEntries fields) ≤ n := by
    refine needEntries_le.mpr fun e he => ?_
    obtain ⟨f, hf, hkey, hvalue⟩ := mem_fieldEntries he
    have hv := h f hf _ hvalue
    have hone := (stable_ofInt (n := 0) (hk.small f.1 (List.mem_map_of_mem hf))).need_le
    have hpos := need_pos e.2
    rw [hkey]
    omega
  show 2 + needEntries (fieldEntries fields) ≤ n + 2
  omega

theorem fits_record (hk : Keys (fields.map Prod.fst)) (h : ∀ f ∈ fields, ∀ v, f.2 = some v → v.Fits) :
    (record fields).Fits := by
  have hfew := hk.few
  rw [List.length_map] at hfew
  refine Nat.max_lt.mpr ⟨Nat.lt_of_le_of_lt (length_fieldEntries_le fields) hfew, ?_⟩
  refine (extentEntries_lt (Nat.two_pow_pos 64)).mpr fun e he => ?_
  obtain ⟨f, hf, hkey, hvalue⟩ := mem_fieldEntries he
  rw [hkey]
  exact ⟨(stable_ofInt (n := 0) (hk.small f.1 (List.mem_map_of_mem hf))).fits, h f hf _ hvalue⟩

/-- The fields of a record that fits do. -/
theorem Fits.of_record (h : (record fields).Fits) {key : Int} {v : Value} (hf : (key, some v) ∈ fields) : v.Fits := by
  have hmem : (ofInt key, v) ∈ fieldEntries fields := by
    rw [fieldEntries, present, List.filterMap_map]
    exact List.mem_filterMap.mpr ⟨(key, some v), hf, rfl⟩
  have hentries : extentEntries (fieldEntries fields) < 2 ^ 64 := Nat.lt_of_le_of_lt (Nat.le_max_right ..) h
  exact ((extentEntries_lt (Nat.two_pow_pos 64)).mp hentries _ hmem).2

/-- A record of stable items is stable. -/
theorem stable_record (hk : Keys (fields.map Prod.fst))
    (h : ∀ f ∈ fields, ∀ v, f.2 = some v → Stable n v) : Stable (n + 2) (record fields) := by
  refine ⟨fits_record hk fun f hf v hv => (h f hf v hv).fits, ?_,
    need_record_le hk fun f hf v hv => (h f hf v hv).need_le⟩
  have hsame : fields.map (fun f => (f.1, f.2.map canon)) = fields.map id := by
    refine List.map_congr_left fun f hf => ?_
    obtain ⟨key, value⟩ := f
    cases value with
    | none => rfl
    | some v => rw [Option.map_some, (h _ hf v rfl).canonical, id]
  rw [canon_record hk, hsame, List.map_id]

theorem find?_record (fields : List (Int × Option Value)) (key : Int) :
    (record fields).find? key = lookup (fieldEntries fields) key := rfl

/-- A field is found under its key. -/
theorem lookup_fieldEntries (hk : Keys (fields.map Prod.fst)) (key : Int) :
    lookup (fieldEntries fields) key = (fields.lookup key).join :=
  find?_present toInt64? ofInt (fun _ hkey => toInt64?_ofInt (hk.small _ hkey)) hk.nodup key

/-- In the canonical form of a record a field is found in canonical form. -/
theorem find?_canon_record (hk : Keys (fields.map Prod.fst)) (key : Int) :
    (record fields).canon.find? key = (fields.lookup key).join.map canon := by
  have hcanon : Keys ((fields.map fun f => (f.1, f.2.map canon)).map Prod.fst) := by
    rw [List.map_map]
    exact hk
  rw [canon_record hk, find?_record, lookup_fieldEntries hcanon, lookup_map_snd]
  cases fields.lookup key <;> rfl

end Value

namespace Fields

/-- The fields of a record. -/
def ofRecord (fields : List (Int × Option Value)) : Fields := ⟨Value.fieldEntries fields⟩

theorem ofValue_record (fields : List (Int × Option Value)) : ofValue (.record fields) = .ok (ofRecord fields) := rfl

theorem get?_ofRecord {fields : List (Int × Option Value)} (hk : Value.Keys (fields.map Prod.fst)) (key : Int) :
    (ofRecord fields).get? key = (fields.lookup key).join :=
  Value.lookup_fieldEntries hk key

/-- The canonical form of a record has the fields in canonical form. -/
theorem ofValue_canon_record {fields : List (Int × Option Value)} (hk : Value.Keys (fields.map Prod.fst)) :
    ∃ read, ofValue (Value.record fields).canon = .ok read ∧
      ∀ key, read.get? key = (fields.lookup key).join.map Value.canon := by
  have hfind := Value.find?_canon_record hk
  rw [Value.canon_record hk] at hfind ⊢
  exact ⟨_, ofValue_record _, hfind⟩

section Read

variable {fields : Fields} {key : Int}

theorem bytes_of_get? {b : Bytes} (h : fields.get? key = some (.bytes b)) : fields.bytes key = .ok b := by
  rw [bytes, get, h]
  rfl

theorem text_of_get? {s : String} (h : fields.get? key = some (.text s)) : fields.text key = .ok s := by
  rw [text, get, h]
  rfl

/-- An optional field is read from its canonical form. -/
theorem optional_of_get? {α : Type} {read : Value → Option α} {write : α → Value} {expected : String} {o : Option α}
    (hread : ∀ x, read (write x).canon = some x) (h : fields.get? key = (o.map write).map Value.canon) :
    fields.optional key read expected = .ok o := by
  rw [optional, h]
  cases o with
  | none => rfl
  | some x =>
    simp only [Option.map_some, hread]
    rfl

end Read

end Fields

end SecurityKey.Cbor

namespace SecurityKey.Ctap

open Cbor (Value)

variable {v : Value}

/-- An item takes at least one byte. -/
theorem isEmpty_encode (h : v.Fits) : v.encode.isEmpty = false := by
  have hread := (Cbor.readItem_encode h v.need []).trans (if_pos (Nat.le_refl _))
  rw [List.append_nil] at hread
  have hpos := Cbor.need_pos v
  cases he : v.encode with
  | nil =>
    obtain ⟨n, hn⟩ := Nat.exists_eq_add_of_lt hpos
    rw [he, hn] at hread
    cases hread
  | cons => rfl

/-- What becomes of the item that an answer was made of. -/
theorem parseResponse_eq (h : v.Fits) :
    parseResponse (response (some v)) = ofCbor (some <$> Cbor.decode v.encode) := by
  have hcode : Status.ofByte Status.success.toByte = .success := by decide
  unfold parseResponse response encodeBody
  simp only [Option.map_some, Option.getD_some, hcode, isEmpty_encode h, Bool.false_eq_true, if_false]

/-- An answer is parsed to the canonical form of the item it was made of. -/
theorem parseResponse_response (h : v.Fits) (hn : v.need ≤ 32) :
    parseResponse (response (some v)) = .ok (some v.canon) := by
  rw [parseResponse_eq h, Cbor.decode_of_need_le h hn]
  rfl

/-- An answer with an item that needs too many levels is malformed. -/
theorem parseResponse_of_lt_need (h : v.Fits) (hn : 32 < v.need) :
    parseResponse (response (some v)) = .error (.cbor .malformed) := by
  rw [parseResponse_eq h, Cbor.decode_of_lt_need h hn]
  rfl

end SecurityKey.Ctap
