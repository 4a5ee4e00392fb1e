import SecurityKey.Proofs.Cbor.Canonical

/-!
# Records in canonical form

Messages are maps with numeric keys whose fields are given in the order of their encoded keys. Such a map is written
field by field (`encode_record`), without any entry moved.
-/

namespace SecurityKey.Cbor

namespace Value

/-- A field of a record, if it is present. -/
def encodeField (f : Int × Option Value) : Bytes :=
  match f.2 with
  | some v => encode (ofInt f.1) ++ encode v
  | none => []

/-- The entries of a record. -/
def fieldEntries (fields : List (Int × Option Value)) : List (Value × Value) :=
  present (fields.map fun f => (ofInt f.1, f.2))

theorem fieldEntries_some (key : Int) (v : Value) (rest : List (Int × Option Value)) :
    fieldEntries ((key, some v) :: rest) = (ofInt key, v) :: fieldEntries rest := rfl

/-- There are no more entries than fields. -/
theorem length_fieldEntries_le (fields : List (Int × Option Value)) : (fieldEntries fields).length ≤ fields.length := by
  rw [fieldEntries, present, List.filterMap_map]
  exact List.length_filterMap_le ..

/-- Every entry comes from a field with its key. -/
theorem exists_of_mem_fieldEntries {fields : List (Int × Option Value)} {e : Value × Value}
    (h : e ∈ fieldEntries fields) : ∃ f ∈ fields, e.1 = ofInt f.1 := by
  rw [fieldEntries, present, List.filterMap_map, List.mem_filterMap] at h
  obtain ⟨f, hf, he⟩ := h
  obtain ⟨v, -, rfl⟩ := Option.map_eq_some_iff.mp he
  exact ⟨f, hf, rfl⟩

/-- Keys of fields in the order of their encoded forms. -/
def KeysInOrder (keys : List Int) : Prop := keys.Pairwise fun a b => keyLE (encode (ofInt a)) (encode (ofInt b))

instance (keys : List Int) : Decidable (KeysInOrder keys) :=
  inferInstanceAs (Decidable (keys.Pairwise fun a b => keyLE (encode (ofInt a)) (encode (ofInt b))))

/-- The entries of a record whose fields come in the order of their keys are in order. -/
theorem inOrder_fieldEntries {fields : List (Int × Option Value)} (h : KeysInOrder (fields.map Prod.fst)) :
    inOrder (fieldEntries fields) = fieldEntries fields := by
  refine List.mergeSort_of_pairwise ?_
  induction fields with
  | nil => exact .nil
  | cons f rest ih =>
    obtain ⟨key, value⟩ := f
    obtain ⟨hkey, hrest⟩ := List.pairwise_cons.mp h
    cases value with
    | none => exact ih hrest
    | some v =>
      rw [fieldEntries_some]
      refine List.pairwise_cons.mpr ⟨fun e he => ?_, ih hrest⟩
      obtain ⟨f, hf, hk⟩ := exists_of_mem_fieldEntries he
      rw [hk]
      exact hkey f.1 (List.mem_map_of_mem hf)

/-- A record whose fields come in the order of their keys is written field by field. -/
theorem encode_record {fields : List (Int × Option Value)} (h : KeysInOrder (fields.map Prod.fst)) :
    encode (record fields) = header 5 (fieldEntries fields).length ++ fields.flatMap encodeField := by
  have hflat : (fieldEntries fields).flatMap (fun e => encode e.1 ++ encode e.2) = fields.flatMap encodeField := by
    clear h
    induction fields with
    | nil => rfl
    | cons f rest ih =>
      obtain ⟨key, value⟩ := f
      cases value with
      | none => exact ih
      | some v => rw [fieldEntries_some, List.flatMap_cons, List.flatMap_cons, ih, encodeField]
  rw [record, encode_map, ← fieldEntries, inOrder_fieldEntries h, hflat]

/-! ## Lengths -/

theorem length_header_le (major n : Nat) : (header major n).length ≤ 9 := by
  unfold header
  repeat' split
  all_goals simp

/-- A byte string is its header and itself. -/
theorem length_encode_bytes_le (b : Bytes) : (encode (.bytes b)).length ≤ 9 + b.length := by
  rw [encode, List.length_append]
  exact Nat.add_le_add_right (length_header_le ..) _

/-- A record takes a header and its fields. -/
theorem length_encode_record_le {fields : List (Int × Option Value)} (h : KeysInOrder (fields.map Prod.fst)) :
    (encode (record fields)).length ≤ 9 + (fields.flatMap encodeField).length := by
  rw [encode_record h, List.length_append]
  exact Nat.add_le_add_right (length_header_le ..) _

theorem length_encodeField_some (key : Int) (v : Value) :
    (encodeField (key, some v)).length = (encode (ofInt key)).length + (encode v).length := List.length_append

end Value

end SecurityKey.Cbor
