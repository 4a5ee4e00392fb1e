import SecurityKey.Ctap.Requests
import SecurityKey.Proofs.Cbor.Message

/-!
# Answers with credentials read back

What a host reads when an authenticator's answer has been written and decoded: of an attestation all but the form of
its statement (`Attestation.ofValue_canon`), of a user and of a descriptor everything (`User.ofValue_canon`,
`Descriptor.ofValue_canon`), and so of an assertion (`Assertion.ofValue_canon`).
-/

namespace SecurityKey

open Cbor (Fields Value)
open Cbor.Value (Keys)

/-! ## Attestations -/

namespace Credential.Attestation

/-- The fields of the map form of an attestation. -/
def fields (a : Attestation) : List (Int × Option Value) :=
  [(1, some (.text a.format)), (2, some (.bytes a.authData)), (3, some a.statement)]

theorem keys_fields (a : Attestation) : Keys (a.fields.map Prod.fst) :=
  show Keys [1, 2, 3] by decide

theorem ofValue_canon (a : Attestation) :
    ofValue a.toValue.canon = .ok ⟨a.format, a.authData, a.statement.canon⟩ := by
  obtain ⟨read, hread, hget⟩ := Fields.ofValue_canon_record a.keys_fields
  have hformat : read.text 1 = .ok a.format := Fields.text_of_get? (hget 1)
  have hdata : read.bytes 2 = .ok a.authData := Fields.bytes_of_get? (hget 2)
  have hstatement : read.get? 3 = some a.statement.canon := hget 3
  have hvalue : Fields.ofValue a.toValue.canon = .ok read := hread
  simp only [ofValue, hvalue, hformat, hdata, Fields.get, hstatement, bind, Except.bind]
  rfl

/-- An attestation fits when its parts do. -/
theorem fits_toValue {a : Attestation} (hformat : (Value.text a.format).Fits) (hdata : (Value.bytes a.authData).Fits)
    (hstatement : a.statement.Fits) : a.toValue.Fits := by
  refine Value.fits_record a.keys_fields ?_
  simp only [List.forall_mem_cons, Option.some.injEq, forall_eq']
  exact ⟨hformat, hdata, hstatement, fun _ h => nomatch h⟩

/-- An attestation takes two levels more than its statement. -/
theorem need_toValue_le {a : Attestation} {n : Nat} (hn : 0 < n) (h : a.statement.need ≤ n) :
    a.toValue.need ≤ n + 2 := by
  refine Value.need_record_le a.keys_fields ?_
  simp only [List.forall_mem_cons, Option.some.injEq, forall_eq']
  exact ⟨hn, hn, h, fun _ h => nomatch h⟩

/-- The statement of a first-generation authenticator is canonical. -/
theorem canon_statement_fidoU2f (authData certificate signature : Bytes) :
    (fidoU2f authData certificate signature).statement.canon = (fidoU2f authData certificate signature).statement := by
  have hle : Cbor.keyLE (Value.encode (.text "sig")) (Value.encode (.text "x5c")) = true := by decide
  have hentries : Value.inOrder [(.text "sig", .bytes signature), (.text "x5c", .array [.bytes certificate])] =
      [(.text "sig", .bytes signature), (.text "x5c", .array [.bytes certificate])] := by
    apply List.mergeSort_of_pairwise
    simp [hle]
  show (Value.map [(.text "sig", .bytes signature), (.text "x5c", .array [.bytes certificate])]).canon = _
  rw [Value.canon_map, hentries]
  rfl

end Credential.Attestation

/-! ## Users -/

namespace Credential.User

/-- The fields of the map form of a user. -/
def fields (u : User) : List (String × Option Value) :=
  [("id", some (.bytes u.id)), ("name", u.name.map .text), ("displayName", u.displayName.map .text),
    ("icon", u.icon.map .text)]

theorem findText?_canon (u : User) (name : String) :
    u.toValue.canon.findText? name = (u.fields.lookup name).join.map Value.canon := by
  have hnodup : (u.fields.map Prod.fst).Nodup := show ["id", "name", "displayName", "icon"].Nodup by decide
  exact Value.findText?_canon_textRecord hnodup name

/-- The user of its map form. -/
theorem ofValue_canon (u : User) : ofValue u.toValue.canon = .ok u := by
  have htext : ∀ o : Option String, ((o.map Value.text).map Value.canon).bind Value.toText? = o :=
    Value.bind_canon fun _ => rfl
  have hid : u.toValue.canon.findText? "id" = some (.bytes u.id) := u.findText?_canon "id"
  have hname : u.toValue.canon.findText? "name" = (u.name.map .text).map Value.canon := u.findText?_canon "name"
  have hdisplay : u.toValue.canon.findText? "displayName" = (u.displayName.map .text).map Value.canon :=
    u.findText?_canon "displayName"
  have hicon : u.toValue.canon.findText? "icon" = (u.icon.map .text).map Value.canon := u.findText?_canon "icon"
  simp only [ofValue, hid, hname, hdisplay, hicon, htext]
  rfl

theorem need_toValue_le (u : User) : u.toValue.need ≤ 3 := by
  have htext : ∀ (o : Option String) (v : Value), o.map Value.text = some v → v.need ≤ 1 := by
    intro o v hv
    obtain ⟨s, -, rfl⟩ := Option.map_eq_some_iff.mp hv
    exact Nat.le_refl 1
  refine Value.need_textRecord_le Nat.one_pos ?_
  simp only [List.forall_mem_cons, Option.some.injEq, forall_eq']
  exact ⟨Nat.le_refl 1, htext _, htext _, htext _, fun _ h => nomatch h⟩

end Credential.User

/-! ## Descriptors -/

namespace Credential.Descriptor

/-- The entries of the map form of a descriptor. -/
def entries (d : Descriptor) : List (Value × Value) :=
  [(.text "id", .bytes d.id), (.text "type", .text publicKeyType)] ++
    (d.transports.map fun ts => (Value.text "transports", Value.texts ts)).toList

theorem toValue_eq_map (d : Descriptor) : d.toValue = .map d.entries := by
  obtain ⟨id, transports⟩ := d
  cases transports <;> rfl

theorem inOrder_entries (d : Descriptor) : Value.inOrder d.entries = d.entries := by
  have htype : Cbor.keyLE (Value.encode (.text "id")) (Value.encode (.text "type")) = true := by decide
  have htransports : Cbor.keyLE (Value.encode (.text "id")) (Value.encode (.text "transports")) = true := by decide
  have hlast : Cbor.keyLE (Value.encode (.text "type")) (Value.encode (.text "transports")) = true := by decide
  refine List.mergeSort_of_pairwise ?_
  obtain ⟨id, transports⟩ := d
  cases transports <;> simp [entries, htype, htransports, hlast]

/-- The map form of a descriptor is canonical. -/
theorem canon_toValue (d : Descriptor) : d.toValue.canon = d.toValue := by
  rw [toValue_eq_map, Value.canon_map, inOrder_entries]
  obtain ⟨id, transports⟩ := d
  cases transports with
  | none => rfl
  | some ts => simp [entries, Value.canon_texts, Value.canon]

theorem ofValue_toValue (d : Descriptor) : ofValue d.toValue = .ok d := by
  obtain ⟨id, transports⟩ := d
  cases transports with
  | none => rfl
  | some ts =>
    have hread : (ts.map Value.text).filterMap Value.toText? = ts :=
      Value.filterMap_map_of_read (fun _ : String => rfl) ts
    show Except.ok (Descriptor.mk id (some ((ts.map Value.text).filterMap Value.toText?))) = _
    rw [hread]

/-- The descriptor of its map form, once that has been decoded. -/
theorem ofValue_canon (d : Descriptor) : ofValue d.toValue.canon = .ok d := by
  rw [canon_toValue, ofValue_toValue]

theorem need_toValue_le (d : Descriptor) : d.toValue.need ≤ 5 := by
  have hone : 1 ≤ 3 := by decide
  refine Value.need_textRecord_le (n := 3) (by decide) ?_
  simp only [List.forall_mem_cons, Option.some.injEq, forall_eq']
  refine ⟨hone, hone, ?_, fun _ h => nomatch h⟩
  intro v hv
  obtain ⟨ts, -, rfl⟩ := Option.map_eq_some_iff.mp hv
  exact Value.need_texts_le ts

end Credential.Descriptor

/-! ## Assertions -/

namespace Ctap.Assertion

/-- The fields of the map form of an assertion. -/
def fields (a : Assertion) : List (Int × Option Value) :=
  [(1, a.credential.map Credential.Descriptor.toValue), (2, some (.bytes a.authData)), (3, some (.bytes a.signature)),
    (4, a.user.map Credential.User.toValue), (5, a.count.map .unsigned)]

theorem keys_fields (a : Assertion) : Keys (a.fields.map Prod.fst) :=
  show Keys [1, 2, 3, 4, 5] by decide

variable {a : Assertion}

/-- The assertion of its map form. -/
theorem ofValue_canon (a : Assertion) : ofValue a.toValue.canon = .ok a := by
  obtain ⟨read, hread, hget⟩ := Fields.ofValue_canon_record a.keys_fields
  have hcredential : (read.get? 1).mapM Credential.Descriptor.ofValue = .ok a.credential := by
    have hone : read.get? 1 = (a.credential.map Credential.Descriptor.toValue).map Value.canon := hget 1
    rw [hone, Value.mapM_canon Credential.Descriptor.ofValue_canon]
  have huser : (read.get? 4).mapM Credential.User.ofValue = .ok a.user := by
    have hfour : read.get? 4 = (a.user.map Credential.User.toValue).map Value.canon := hget 4
    rw [hfour, Value.mapM_canon Credential.User.ofValue_canon]
  have hdata : read.bytes 2 = .ok a.authData := Fields.bytes_of_get? (hget 2)
  have hsignature : read.bytes 3 = .ok a.signature := Fields.bytes_of_get? (hget 3)
  have hcount : read.unsigned? 5 = .ok a.count := by
    have hfive : read.get? 5 = (a.count.map Value.unsigned).map Value.canon := hget 5
    exact Fields.optional_of_get? (fun _ => rfl) hfive
  have hvalue : Fields.ofValue a.toValue.canon = .ok read := hread
  simp only [ofValue, hvalue, hcredential, huser, hdata, hsignature, hcount, bind, Except.bind]
  rfl

/-- An assertion fits when its parts do. -/
theorem fits_toValue (hcredential : ∀ d, a.credential = some d → d.toValue.Fits)
    (hdata : (Value.bytes a.authData).Fits) (hsignature : (Value.bytes a.signature).Fits)
    (huser : ∀ u, a.user = some u → u.toValue.Fits) : a.toValue.Fits := by
  refine Value.fits_record a.keys_fields ?_
  simp only [List.forall_mem_cons, Option.map_eq_some_iff, Option.some.injEq, forall_exists_index, and_imp,
    forall_eq']
  refine ⟨?_, hdata, hsignature, ?_, ?_, fun _ h => nomatch h⟩
  · rintro v d hd rfl
    exact hcredential d hd
  · rintro v u hu rfl
    exact huser u hu
  · rintro v n - rfl
    exact Nat.two_pow_pos 64

theorem need_toValue_le (a : Assertion) : a.toValue.need ≤ 7 := by
  have hone : 1 ≤ 5 := by decide
  refine Value.need_record_le (n := 5) a.keys_fields ?_
  simp only [List.forall_mem_cons, Option.map_eq_some_iff, Option.some.injEq, forall_exists_index, and_imp,
    forall_eq']
  refine ⟨?_, hone, hone, ?_, ?_, fun _ h => nomatch h⟩
  · rintro v d - rfl
    exact d.need_toValue_le
  · rintro v u - rfl
    exact Nat.le_trans u.need_toValue_le (by decide)
  · rintro v n - rfl
    exact hone

end Ctap.Assertion

end SecurityKey
