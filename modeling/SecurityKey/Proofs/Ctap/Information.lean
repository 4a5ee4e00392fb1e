import SecurityKey.Ctap.Info
import SecurityKey.Proofs.Cbor.Message

/-!
# Information written and read back

What an authenticator tells about itself is read back from the canonical form of its map (`Info.ofValue_canon`).
Lists that are empty and options of which none is present leave no entry, and an absent entry is read as just that
(`Options.getD_ofValue_canon`, `Info.getD_texts_canon`, `Info.exists_array?`).
-/

namespace SecurityKey.Ctap

open Cbor (Fields Value)
open Cbor.Value (Keys)

/-! ## Options -/

namespace Options

/-- The fields of the map form of options. -/
def fields (o : Options) : List (String × Option Value) :=
  [("plat", o.plat.map .bool), ("rk", o.rk.map .bool), ("clientPin", o.clientPin.map .bool), ("up", o.up.map .bool),
    ("uv", o.uv.map .bool)]

theorem findText?_canon (o : Options) (name : String) :
    (Value.textRecord o.fields).canon.findText? name = (o.fields.lookup name).join.map Value.canon := by
  have hnodup : (o.fields.map Prod.fst).Nodup := show ["plat", "rk", "clientPin", "up", "uv"].Nodup by decide
  exact Value.findText?_canon_textRecord hnodup name

theorem ofValue_canon (o : Options) : ofValue (Value.textRecord o.fields).canon = o := by
  have hflag : ∀ b : Option Bool, ((b.map Value.bool).map Value.canon).bind Value.toBool? = b :=
    Value.bind_canon fun _ => rfl
  have hplat : (Value.textRecord o.fields).canon.findText? "plat" = (o.plat.map .bool).map Value.canon :=
    o.findText?_canon "plat"
  have hrk : (Value.textRecord o.fields).canon.findText? "rk" = (o.rk.map .bool).map Value.canon :=
    o.findText?_canon "rk"
  have hpin : (Value.textRecord o.fields).canon.findText? "clientPin" = (o.clientPin.map .bool).map Value.canon :=
    o.findText?_canon "clientPin"
  have hup : (Value.textRecord o.fields).canon.findText? "up" = (o.up.map .bool).map Value.canon :=
    o.findText?_canon "up"
  have huv : (Value.textRecord o.fields).canon.findText? "uv" = (o.uv.map .bool).map Value.canon :=
    o.findText?_canon "uv"
  simp only [ofValue, hplat, hrk, hpin, hup, huv, hflag]

/-- Without any option there is no map. -/
theorem toValue?_cases (o : Options) :
    (o = none ∧ o.toValue? = .none) ∨ o.toValue? = some (.textRecord o.fields) := by
  obtain ⟨plat, rk, clientPin, up, uv⟩ := o
  unfold toValue?
  simp only
  split
  · rename_i hall
    simp only [List.all_cons, List.all_nil, Bool.and_true, Bool.and_eq_true, Option.isNone_iff_eq_none] at hall
    obtain ⟨rfl, rfl, rfl, rfl, rfl⟩ := hall
    exact .inl ⟨rfl, rfl⟩
  · exact .inr rfl

/-- The options of their map form, absent or not. -/
theorem getD_ofValue_canon (o : Options) : ((o.toValue?.map Value.canon).map ofValue).getD none = o := by
  rcases o.toValue?_cases with ⟨ho, hvalue⟩ | hvalue
  · rw [hvalue, ho]
    rfl
  · rw [hvalue, Option.map_some, Option.map_some, ofValue_canon]
    rfl

theorem need_le (o : Options) {v : Value} (h : o.toValue? = some v) : v.need ≤ 3 := by
  have hflag : ∀ (b : Option Bool) (v : Value), b.map Value.bool = some v → v.need ≤ 1 := by
    intro b v hv
    obtain ⟨x, -, rfl⟩ := Option.map_eq_some_iff.mp hv
    exact Nat.le_refl 1
  rcases o.toValue?_cases with ⟨-, hvalue⟩ | hvalue
  · rw [hvalue] at h
    cases h
  · rw [hvalue] at h
    obtain rfl := Option.some.inj h
    refine Value.need_textRecord_le Nat.one_pos ?_
    simp only [fields, List.forall_mem_cons]
    exact ⟨hflag _, hflag _, hflag _, hflag _, hflag _, fun _ h => nomatch h⟩

end Options

/-! ## Information -/

namespace Info

/-- The fields of the map form of the information. -/
def fields (i : Info) : List (Int × Option Value) :=
  [(1, some (.texts i.versions)), (2, listValue? (i.extensions.map .text)), (3, some (.bytes i.aaguid.val)),
    (4, i.options.toValue?), (5, i.maxMsgSize.map .unsigned), (6, listValue? (i.pinProtocols.map .unsigned))]

theorem keys_fields (i : Info) : Keys (i.fields.map Prod.fst) :=
  show Keys [1, 2, 3, 4, 5, 6] by decide

/-- An empty list leaves no entry. -/
theorem listValue?_cases (items : List Value) :
    (items = [] ∧ listValue? items = none) ∨ listValue? items = some (.array items) := by
  cases items with
  | nil => exact .inl ⟨rfl, rfl⟩
  | cons => exact .inr rfl

theorem texts_canon (ts : List String) : texts (Value.texts ts).canon = ts := by
  rw [Value.canon_texts]
  exact Value.filterMap_map_of_read (fun _ : String => rfl) ts

/-- The texts of an array, absent or not. -/
theorem getD_texts_canon (ts : List String) :
    (((listValue? (ts.map .text)).map Value.canon).map texts).getD [] = ts := by
  rcases listValue?_cases (ts.map .text) with ⟨hnil, hvalue⟩ | hvalue
  · rw [hvalue, List.map_eq_nil_iff.mp hnil]
    rfl
  · rw [hvalue]
    exact texts_canon ts

/-- The numbers of an array, absent or not. -/
theorem exists_array? {read : Fields} {key : Int} {ns : List UInt64}
    (h : read.get? key = (listValue? (ns.map .unsigned)).map Value.canon) :
    ∃ items, read.array? key = .ok items ∧ (items.getD []).filterMap Value.toUnsigned? = ns := by
  rw [Fields.array?, Fields.optional, h]
  rcases listValue?_cases (ns.map .unsigned) with ⟨hnil, hvalue⟩ | hvalue
  · rw [hvalue, List.map_eq_nil_iff.mp hnil]
    exact ⟨none, rfl, rfl⟩
  · have hcanon : (Value.array (ns.map .unsigned)).canon = .array (ns.map .unsigned) :=
      Value.canon_array_map (fun _ => rfl) ns
    rw [hvalue, Option.map_some, hcanon]
    exact ⟨some (ns.map .unsigned), rfl, Value.filterMap_map_of_read (fun _ : UInt64 => rfl) ns⟩

/-- The information of its map form. -/
theorem ofValue_canon (i : Info) : ofValue i.toValue.canon = .ok i := by
  obtain ⟨read, hread, hget⟩ := Fields.ofValue_canon_record i.keys_fields
  have hvalue : Fields.ofValue i.toValue.canon = .ok read := hread
  have hversions : read.get? 1 = some (Value.texts i.versions).canon := hget 1
  have hextensions : ((read.get? 2).map texts).getD [] = i.extensions := by
    have htwo : read.get? 2 = (listValue? (i.extensions.map .text)).map Value.canon := hget 2
    rw [htwo, getD_texts_canon]
  have haaguid : read.bytes 3 = .ok i.aaguid.val := Fields.bytes_of_get? (hget 3)
  have hoptions : ((read.get? 4).map Options.ofValue).getD .none = i.options := by
    have hfour : read.get? 4 = i.options.toValue?.map Value.canon := hget 4
    rw [hfour, Options.getD_ofValue_canon]
  have hsize : read.unsigned? 5 = .ok i.maxMsgSize := by
    have hfive : read.get? 5 = (i.maxMsgSize.map Value.unsigned).map Value.canon := hget 5
    exact Fields.optional_of_get? (fun _ => rfl) hfive
  obtain ⟨protocols, hsix, hprotocols⟩ := exists_array? (hget 6)
  simp only [ofValue, hvalue, Fields.get, hversions, texts_canon, hextensions, haaguid, Bytes.sized?_val, hoptions,
    hsize, hsix, hprotocols, bind, Except.bind]
  rfl

theorem need_listValue?_le {α : Type} {write : α → Value} (h : ∀ x, (write x).need ≤ 1) (xs : List α) (v : Value)
    (hv : listValue? (xs.map write) = some v) : v.need ≤ 3 := by
  rcases listValue?_cases (xs.map write) with ⟨-, hvalue⟩ | hvalue
  · rw [hvalue] at hv
    cases hv
  · rw [hvalue] at hv
    obtain rfl := Option.some.inj hv
    exact Value.need_array_map_le h xs

theorem need_toValue_le (i : Info) : i.toValue.need ≤ 5 := by
  refine Value.need_record_le (n := 3) i.keys_fields ?_
  simp only [List.forall_mem_cons, Option.some.injEq, forall_eq']
  refine ⟨?_, ?_, ?_, ?_, ?_, ?_, fun _ h => nomatch h⟩
  · exact Value.need_texts_le i.versions
  · refine need_listValue?_le (fun _ => ?_) i.extensions
    exact Nat.le_refl 1
  · exact Nat.le_add_left 1 2
  · exact fun v => i.options.need_le
  · intro v hv
    obtain ⟨n, -, rfl⟩ := Option.map_eq_some_iff.mp hv
    exact Nat.le_add_left 1 2
  · refine need_listValue?_le (fun _ => ?_) i.pinProtocols
    exact Nat.le_refl 1

end Info

end SecurityKey.Ctap
