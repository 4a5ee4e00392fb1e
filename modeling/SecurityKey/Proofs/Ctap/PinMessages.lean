import SecurityKey.Ctap.Requests
import SecurityKey.Proofs.Cbor.Message

/-!
# PIN messages written and read back

- a public key and an answer to a PIN request are read back from their map forms (`PublicKey.ofValue_toValue`,
  `PinResponse.ofValue?_toValue`), which are stable (`PinResponse.stable_toValue`);
- the fields of the map form of a PIN request are those of the request (`ClientPin.get?_fields`);
- a request is short when its byte strings are (`ClientPin.length_toBytes_le`).
-/

namespace SecurityKey

open Cbor (Fields Value)
open Cbor.Value (Keys Stable)

namespace Credential.PublicKey

/-- The fields of the map form of a key. -/
def fields (k : PublicKey) : List (Int × Option Value) :=
  [(keyTypeLabel, some (.unsigned 2)), (algorithmLabel, some (.ofInt k.algorithm.id)),
    (curveLabel, some (.unsigned 1)), (xLabel, some (.bytes k.x.val)), (yLabel, some (.bytes k.y.val))]

theorem toValue_eq_record (k : PublicKey) : k.toValue = .record k.fields := rfl

theorem keys_fields (k : PublicKey) : Keys (k.fields.map Prod.fst) :=
  show Keys [1, 3, -1, -2, -3] by decide

theorem field_toValue {k : PublicKey} {label : Int} {v : Value} (h : (k.fields.lookup label).join = some v) :
    field k.toValue label = .ok v := by
  rw [field, toValue_eq_record, Value.find?_record, Value.lookup_fieldEntries k.keys_fields, h]

theorem small_id (a : Algorithm) : -2 ^ 63 ≤ a.id ∧ a.id < 2 ^ 63 := by
  cases a <;> decide

theorem ofId?_id (a : Algorithm) : Algorithm.ofId? a.id = some a := by
  cases a <;> rfl

/-- The key of its map form. -/
theorem ofValue_toValue (k : PublicKey) : ofValue k.toValue = .ok k := by
  have htype : field k.toValue keyTypeLabel = .ok (.unsigned 2) := field_toValue rfl
  have hcurve : field k.toValue curveLabel = .ok (.unsigned 1) := field_toValue rfl
  have halgorithm : field k.toValue algorithmLabel = .ok (.ofInt k.algorithm.id) := field_toValue rfl
  have hx : field k.toValue xLabel = .ok (.bytes k.x.val) := field_toValue rfl
  have hy : field k.toValue yLabel = .ok (.bytes k.y.val) := field_toValue rfl
  have hread : (Value.ofInt k.algorithm.id).toInt64?.bind Algorithm.ofId? = some k.algorithm := by
    rw [Value.toInt64?_ofInt (small_id _), Option.bind_some, ofId?_id]
  simp only [ofValue, coordinate, htype, hcurve, halgorithm, hx, hy, hread, bind, Except.bind, Value.toBytes?,
    Option.bind_some, Bytes.sized?_val, expect]
  rfl

theorem stable_toValue (k : PublicKey) : Stable 3 k.toValue := by
  have hx : k.x.val.length < 2 ^ 64 := by
    rw [k.x.property]
    decide
  have hy : k.y.val.length < 2 ^ 64 := by
    rw [k.y.property]
    decide
  refine Value.stable_record (n := 1) k.keys_fields ?_
  simp only [List.forall_mem_cons, Option.some.injEq, forall_eq']
  exact ⟨Value.stable_unsigned 2, Value.stable_ofInt (small_id _), Value.stable_unsigned 1, Value.stable_bytes hx,
    Value.stable_bytes hy, fun _ h => nomatch h⟩

/-- The key of its map form, once that has been decoded. -/
theorem ofValue_canon (k : PublicKey) : ofValue k.toValue.canon = .ok k := by
  rw [k.stable_toValue.canonical, ofValue_toValue]

/-- The map form of a key is short. -/
theorem length_encode_toValue_le (k : PublicKey) : (Value.encode k.toValue).length ≤ 150 := by
  have hfixed : (Value.encodeField (keyTypeLabel, some (.unsigned 2))).length = 2 ∧
      (Value.encodeField (curveLabel, some (.unsigned 1))).length = 2 ∧
      (Value.encode (.ofInt algorithmLabel)).length = 1 ∧ (Value.encode (.ofInt xLabel)).length = 1 ∧
      (Value.encode (.ofInt yLabel)).length = 1 := by decide
  have ha := Value.length_encode_ofInt_le (small_id k.algorithm)
  have hx := Value.length_encode_bytes_le k.x.val
  have hy := Value.length_encode_bytes_le k.y.val
  rw [k.x.property] at hx
  rw [k.y.property] at hy
  have hrecord : (Value.encode k.toValue).length ≤ 9 + (k.fields.flatMap Value.encodeField).length :=
    Value.length_encode_record_le k.keys_fields.inOrder
  simp only [fields, List.flatMap_cons, List.flatMap_nil, List.length_append, List.length_nil,
    Value.length_encodeField_some] at hrecord hfixed
  omega

end Credential.PublicKey

namespace Ctap

/-! ## Answers -/

namespace PinResponse

/-- The fields of the map form of an answer. -/
def fields (r : PinResponse) : List (Int × Option Value) :=
  [(1, r.keyAgreement.map Credential.PublicKey.toValue), (2, r.pinToken.map .bytes), (3, r.retries.map .unsigned)]

theorem keys_fields (r : PinResponse) : Keys (r.fields.map Prod.fst) :=
  show Keys [1, 2, 3] by decide

/-- The answer of its map form. -/
theorem ofValue?_toValue (r : PinResponse) : ofValue? (some r.toValue) = .ok r := by
  have hfields : Fields.ofValue r.toValue = .ok (.ofRecord r.fields) := Fields.ofValue_record _
  have hget := Fields.get?_ofRecord r.keys_fields
  have hkey : (Fields.ofRecord r.fields).get? 1 = r.keyAgreement.map Credential.PublicKey.toValue := hget 1
  have htoken : (Fields.ofRecord r.fields).get? 2 = r.pinToken.map .bytes := hget 2
  have hretries : (Fields.ofRecord r.fields).get? 3 = r.retries.map .unsigned := hget 3
  obtain ⟨key, token, retries⟩ := r
  simp only [ofValue?, hfields, hkey, Fields.bytes?, Fields.unsigned?, Fields.optional, htoken, hretries, bind,
    Except.bind]
  cases key <;> cases token <;> cases retries <;>
    simp [Credential.PublicKey.ofValue_toValue, Fields.kind, Value.toBytes?, Value.toUnsigned?, Except.map,
      Functor.map, pure, Except.pure]

/-- An answer whose token has a length at all is stable. -/
theorem stable_toValue (r : PinResponse) (h : ∀ token, r.pinToken = some token → token.length < 2 ^ 64) :
    Stable 5 r.toValue := by
  refine Value.stable_record (n := 3) r.keys_fields ?_
  simp only [List.forall_mem_cons, Option.map_eq_some_iff, forall_exists_index, and_imp]
  refine ⟨?_, ?_, ?_, fun _ h => nomatch h⟩
  · rintro v key - rfl
    exact key.stable_toValue
  · rintro v token htoken rfl
    exact Value.stable_bytes (h token htoken)
  · rintro v retries - rfl
    exact Value.stable_unsigned retries

end PinResponse

/-! ## Requests -/

namespace ClientPin

/-- The fields of the map form of a request. -/
def fields (r : ClientPin) : List (Int × Option Value) :=
  [(1, some (.ofNat r.pinProtocol.toNat)), (2, some (.ofNat r.subcommand.toByte.toNat)),
    (3, r.keyAgreement.map Credential.PublicKey.toValue), (4, r.pinAuth.map .bytes), (5, r.newPinEnc.map .bytes),
    (6, r.pinHashEnc.map .bytes)]

theorem keys_fields (r : ClientPin) : Keys (r.fields.map Prod.fst) :=
  show Keys [1, 2, 3, 4, 5, 6] by decide

theorem ofValue_toValue (r : ClientPin) : Fields.ofValue r.toValue = .ok (.ofRecord r.fields) :=
  Fields.ofValue_record _

theorem get?_fields (r : ClientPin) (key : Int) : (Fields.ofRecord r.fields).get? key = (r.fields.lookup key).join :=
  Fields.get?_ofRecord r.keys_fields key

/-- The byte strings of a request are no longer than the given length. -/
structure Bounded (n : Nat) (r : ClientPin) : Prop where
  pinAuth : ∀ b, r.pinAuth = some b → b.length ≤ n
  newPinEnc : ∀ b, r.newPinEnc = some b → b.length ≤ n
  pinHashEnc : ∀ b, r.pinHashEnc = some b → b.length ≤ n

theorem stable_toValue {r : ClientPin} {n : Nat} (h : r.Bounded n) (hn : n < 2 ^ 64) : Stable 5 r.toValue := by
  have hbyte : ∀ b : UInt8, Stable 3 (.ofNat b.toNat) := by
    intro b
    have hb := b.toNat_lt
    exact Value.stable_ofInt ⟨by omega, by omega⟩
  have hbytes : ∀ field : Option Bytes, (∀ b, field = some b → b.length ≤ n) →
      ∀ v, field.map Value.bytes = some v → Stable 3 v := by
    intro field hfield v hv
    obtain ⟨b, hb, rfl⟩ := Option.map_eq_some_iff.mp hv
    exact Value.stable_bytes (Nat.lt_of_le_of_lt (hfield b hb) hn)
  refine Value.stable_record (n := 3) r.keys_fields ?_
  simp only [List.forall_mem_cons, Option.some.injEq, forall_eq']
  refine ⟨hbyte _, hbyte _, ?_, hbytes _ h.pinAuth, hbytes _ h.newPinEnc, hbytes _ h.pinHashEnc, fun _ h => nomatch h⟩
  intro v hv
  obtain ⟨key, -, rfl⟩ := Option.map_eq_some_iff.mp hv
  exact key.stable_toValue

theorem length_encodeField_bytes_le (key : Int) {n : Nat} {field : Option Bytes}
    (hkey : (Value.encode (.ofInt key)).length = 1) (h : ∀ b, field = some b → b.length ≤ n) :
    (Value.encodeField (key, field.map .bytes)).length ≤ 10 + n := by
  cases field with
  | none => exact Nat.zero_le _
  | some b =>
    have hb := h b rfl
    have hlength := Value.length_encode_bytes_le b
    rw [Option.map_some, Value.length_encodeField_some]
    omega

theorem length_encodeField_byte_le (key : Int) (hkey : (Value.encode (.ofInt key)).length = 1) (b : UInt8) :
    (Value.encodeField (key, some (.ofNat b.toNat))).length ≤ 10 := by
  have hb := b.toNat_lt
  have hlength := Value.length_encode_ofInt_le (k := (b.toNat : Int)) ⟨by omega, by omega⟩
  rw [Value.length_encodeField_some, Value.ofNat]
  omega

theorem length_encodeField_publicKey_le (key : Int) (hkey : (Value.encode (.ofInt key)).length = 1)
    (field : Option Credential.PublicKey) :
    (Value.encodeField (key, field.map Credential.PublicKey.toValue)).length ≤ 151 := by
  cases field with
  | none => exact Nat.zero_le _
  | some k =>
    have hlength := k.length_encode_toValue_le
    rw [Option.map_some, Value.length_encodeField_some]
    omega

/-- A request is short when its byte strings are. -/
theorem length_toBytes_le {r : ClientPin} {n : Nat} (h : r.Bounded n) : r.toBytes.length ≤ 220 + 3 * n := by
  have h1 := length_encodeField_byte_le 1 (by decide) r.pinProtocol
  have h2 := length_encodeField_byte_le 2 (by decide) r.subcommand.toByte
  have h3 := length_encodeField_publicKey_le 3 (by decide) r.keyAgreement
  have h4 := length_encodeField_bytes_le 4 (by decide) h.pinAuth
  have h5 := length_encodeField_bytes_le 5 (by decide) h.newPinEnc
  have h6 := length_encodeField_bytes_le 6 (by decide) h.pinHashEnc
  have hrecord : (Value.encode r.toValue).length ≤ 9 + (r.fields.flatMap Value.encodeField).length :=
    Value.length_encode_record_le r.keys_fields.inOrder
  simp only [fields, List.flatMap_cons, List.flatMap_nil, List.length_append, List.length_nil] at hrecord
  show (Value.encode r.toValue).length + 1 ≤ _
  omega

end ClientPin

end Ctap

end SecurityKey
