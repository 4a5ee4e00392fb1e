import SecurityKey.Proofs.Cbor.Message

/-!
# What encodings tell apart

Equal encodings have equal canonical forms (`canon_eq_of_encode_eq`), so a way to write things as items keeps them
apart when their canonical forms differ. Such a way is `Faithful`.

- strings and numbers are written faithfully (`faithful_bytes`, `faithful_text`, `faithful_ofInt`), and so is all that
  is read back from its canonical form (`faithful_of_read`);
- lists and optional parts of faithful items are kept apart (`Faithful.list`, `Faithful.optional`);
- records with one canonical form agree in every field (`canon_field_eq`, `canon_textField_eq`).
-/

namespace SecurityKey.Cbor

/-- Items with one encoding have one canonical form. -/
theorem canon_eq_of_encode_eq {v w : Value} (hv : v.Fits) (hw : w.Fits) (h : v.encode = w.encode) :
    v.canon = w.canon := by
  -- A budget for the deeper of the two reads both, and from the same bytes.
  have hreadv := readItem_encode hv (max v.need w.need) []
  have hreadw := readItem_encode hw (max v.need w.need) []
  rw [if_pos (Nat.le_max_left ..)] at hreadv
  rw [if_pos (Nat.le_max_right ..), ← h, hreadv] at hreadw
  exact (Prod.mk.inj (Option.some.inj hreadw)).1

namespace Value

variable {α : Type} {write : α → Value}

/-- The canonical forms of what is written tell it apart. -/
def Faithful (write : α → Value) : Prop := ∀ x y, (write x).canon = (write y).canon → x = y

/-- What is read back from its canonical form is written faithfully. -/
theorem faithful_of_read {β : Type} {read : Value → β} {result : α → β} (hresult : ∀ x y, result x = result y → x = y)
    (h : ∀ x, read (write x).canon = result x) : Faithful write := by
  intro x y hxy
  apply hresult
  rw [← h, hxy, h]

theorem faithful_bytes : Faithful .bytes := fun _ _ => Value.bytes.inj

theorem faithful_text : Faithful .text := fun _ _ => Value.text.inj

theorem faithful_bool : Faithful .bool := fun _ _ => Value.bool.inj

/-! ## Numbers -/

/-- The number an item denotes, whatever its size. -/
def toInt? : Value → Option Int
  | .unsigned n => some n.toNat
  | .negative n => some (-1 - n.toNat)
  | .bignum isNegative magnitude => some (if isNegative then -1 - magnitude.toNat else magnitude.toNat)
  | _ => none

/-- A number is read from its item, however it is written. -/
theorem toInt?_canon_ofInt (k : Int) : (ofInt k).canon.toInt? = some k := by
  cases k with
  | ofNat m =>
    rw [ofInt]
    split
    · rename_i hm
      simp only [canon, toInt?, UInt64.toNat_ofNat', Nat.mod_eq_of_lt hm]
      rfl
    · simp only [canon, toInt?, Bytes.toNat_stripZeros, Bytes.toNat_minimal]
      rfl
  | negSucc m =>
    rw [ofInt]
    split
    · rename_i hm
      simp only [canon, toInt?, UInt64.toNat_ofNat', Nat.mod_eq_of_lt hm]
      congr 1
      omega
    · simp only [canon, toInt?, Bytes.toNat_stripZeros, Bytes.toNat_minimal, if_true]
      congr 1
      omega

theorem faithful_ofInt : Faithful ofInt := faithful_of_read (fun _ _ => Option.some.inj) toInt?_canon_ofInt

/-- A byte is told apart by the number it is written as. -/
theorem faithful_byte : Faithful fun b : UInt8 => ofNat b.toNat := by
  intro a b h
  apply UInt8.toNat_inj.mp
  exact Int.ofNat.inj (faithful_ofInt _ _ h)

/-! ## Lists, optional parts and fields -/

theorem Faithful.list (h : Faithful write) : Faithful fun xs : List α => .array (xs.map write) := by
  intro xs ys hxy
  simp only [canon, canonItems_eq_map, List.map_map] at hxy
  exact (List.map_inj_right fun x y => h x y).mp (Value.array.inj hxy)

theorem Faithful.optional (h : Faithful write) {o o' : Option α}
    (ho : (o.map write).map canon = (o'.map write).map canon) : o = o' := by
  simp only [Option.map_map] at ho
  exact (Option.map_inj_right fun x y => h x y).mp ho

/-- Records with one canonical form agree in every field. -/
theorem canon_field_eq {fields fields' : List (Int × Option Value)} (h : (record fields).canon = (record fields').canon)
    (hk : Keys (fields.map Prod.fst)) (hk' : Keys (fields'.map Prod.fst)) (key : Int) :
    (fields.lookup key).join.map canon = (fields'.lookup key).join.map canon := by
  rw [← find?_canon_record hk, h, find?_canon_record hk']

/-- Records with text keys and one canonical form agree in every field. -/
theorem canon_textField_eq {fields fields' : List (String × Option Value)}
    (h : (textRecord fields).canon = (textRecord fields').canon) (hk : (fields.map Prod.fst).Nodup)
    (hk' : (fields'.map Prod.fst).Nodup) (name : String) :
    (fields.lookup name).join.map canon = (fields'.lookup name).join.map canon := by
  rw [← findText?_canon_textRecord hk, h, findText?_canon_textRecord hk']

end Value

end SecurityKey.Cbor
