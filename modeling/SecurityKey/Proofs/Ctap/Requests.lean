import SecurityKey.Proofs.Cbor.Faithful
import SecurityKey.Proofs.Ctap.CredentialMessages
import SecurityKey.Proofs.Ctap.PinMessages

/-!
# Different requests have different bytes

Each part of a request is written faithfully: the parties (`RelyingParty.faithful_toValue`,
`User.faithful_toValue`), descriptors and their lists (`Descriptor.faithful_toValue`, `Descriptor.eq_of_listValue?`),
algorithms, keys and numbers. So are the three requests with parameters, each a record of such parts. The command byte
tells the kinds apart, and so the bytes determine the request (`Request.toBytes_injective`).
-/

namespace SecurityKey

open Cbor (Value)
open Cbor.Value (Faithful Keys)

/-! ## Parts of requests -/

namespace Credential

theorem RelyingParty.faithful_toValue : Faithful toValue := by
  intro r s h
  have hnodup : ["id", "name", "icon"].Nodup := by decide
  have hfields := Value.canon_textField_eq h hnodup hnodup
  obtain ⟨id, name, icon⟩ := r
  obtain ⟨id', name', icon'⟩ := s
  obtain rfl : id = id' := Value.faithful_text _ _ (Option.some.inj (hfields "id"))
  obtain rfl : name = name' := Value.faithful_text.optional (hfields "name")
  obtain rfl : icon = icon' := Value.faithful_text.optional (hfields "icon")
  rfl

theorem User.faithful_toValue : Faithful User.toValue :=
  Value.faithful_of_read (fun _ _ => Except.ok.inj) User.ofValue_canon

theorem Descriptor.faithful_toValue : Faithful Descriptor.toValue :=
  Value.faithful_of_read (fun _ _ => Except.ok.inj) Descriptor.ofValue_canon

/-- A list of descriptors is told apart from others, and from none at all. -/
theorem Descriptor.eq_of_listValue? {ds es : List Descriptor}
    (h : (listValue? ds).map Value.canon = (listValue? es).map Value.canon) : ds = es := by
  cases ds with
  | nil =>
    cases es with
    | nil => rfl
    | cons => cases h
  | cons =>
    cases es with
    | nil => cases h
    | cons => exact faithful_toValue.list _ _ (Option.some.inj h)

theorem faithful_parameterValue : Faithful parameterValue := by
  intro a b h
  have hnodup : ["alg", "type"].Nodup := by decide
  have hfields := Value.canon_textField_eq h hnodup hnodup
  exact Value.faithful_ofInt _ _ (Option.some.inj (hfields "alg"))

theorem PublicKey.faithful_toValue : Faithful PublicKey.toValue :=
  Value.faithful_of_read (fun _ _ => Except.ok.inj) PublicKey.ofValue_canon

end Credential

namespace Ctap

open Credential (Descriptor PublicKey RelyingParty User)

/-! ## Making a credential -/

namespace MakeCredential

/-- The option to store the credential. -/
def optionsValue (rk : Bool) : Value := .textRecord [("rk", some (.bool rk))]

theorem faithful_optionsValue : Faithful optionsValue := by
  intro a b h
  have hnodup : ["rk"].Nodup := by decide
  have hfields := Value.canon_textField_eq h hnodup hnodup
  exact Value.faithful_bool _ _ (Option.some.inj (hfields "rk"))

theorem faithful_toValue : Faithful toValue := by
  intro r s h
  have hkeys : Keys [1, 2, 3, 4, 5, 7, 8, 9] := by decide
  have hfields := Value.canon_field_eq h hkeys hkeys
  obtain ⟨hash, rp, user, algorithms, exclude, rk, pinAuth, pinProtocol⟩ := r
  obtain ⟨hash', rp', user', algorithms', exclude', rk', pinAuth', pinProtocol'⟩ := s
  obtain rfl : hash = hash' := Subtype.ext (Value.faithful_bytes _ _ (Option.some.inj (hfields 1)))
  obtain rfl : rp = rp' := RelyingParty.faithful_toValue _ _ (Option.some.inj (hfields 2))
  obtain rfl : user = user' := User.faithful_toValue _ _ (Option.some.inj (hfields 3))
  obtain rfl : algorithms = algorithms' := Credential.faithful_parameterValue.list _ _ (Option.some.inj (hfields 4))
  obtain rfl : exclude = exclude' := Descriptor.eq_of_listValue? (hfields 5)
  obtain rfl : rk = rk' := faithful_optionsValue.optional (hfields 7)
  obtain rfl : pinAuth = pinAuth' := Value.faithful_bytes.optional (hfields 8)
  obtain rfl : pinProtocol = pinProtocol' := Value.faithful_byte.optional (hfields 9)
  rfl

end MakeCredential

/-! ## Getting an assertion -/

namespace GetAssertion

theorem faithful_toValue : Faithful toValue := by
  intro r s h
  have hkeys : Keys [1, 2, 3, 6, 7] := by decide
  have hfields := Value.canon_field_eq h hkeys hkeys
  obtain ⟨rpId, hash, allow, pinAuth, pinProtocol⟩ := r
  obtain ⟨rpId', hash', allow', pinAuth', pinProtocol'⟩ := s
  obtain rfl : rpId = rpId' := Value.faithful_text _ _ (Option.some.inj (hfields 1))
  obtain rfl : hash = hash' := Subtype.ext (Value.faithful_bytes _ _ (Option.some.inj (hfields 2)))
  obtain rfl : allow = allow' := Descriptor.eq_of_listValue? (hfields 3)
  obtain rfl : pinAuth = pinAuth' := Value.faithful_bytes.optional (hfields 6)
  obtain rfl : pinProtocol = pinProtocol' := Value.faithful_byte.optional (hfields 7)
  rfl

end GetAssertion

/-! ## PIN requests -/

theorem PinSubcommand.ofByte?_toByte (c : PinSubcommand) : ofByte? c.toByte = some c := by
  cases c <;> rfl

theorem ClientPin.faithful_toValue : Faithful toValue := by
  intro r s h
  have hfields := Value.canon_field_eq h r.keys_fields s.keys_fields
  obtain ⟨pinProtocol, subcommand, key, pinAuth, newPinEnc, pinHashEnc⟩ := r
  obtain ⟨pinProtocol', subcommand', key', pinAuth', newPinEnc', pinHashEnc'⟩ := s
  obtain rfl : pinProtocol = pinProtocol' := Value.faithful_byte _ _ (Option.some.inj (hfields 1))
  have hbyte : subcommand.toByte = subcommand'.toByte := Value.faithful_byte _ _ (Option.some.inj (hfields 2))
  obtain rfl : subcommand = subcommand' := by
    apply Option.some.inj
    rw [← PinSubcommand.ofByte?_toByte, hbyte, PinSubcommand.ofByte?_toByte]
  obtain rfl : key = key' := PublicKey.faithful_toValue.optional (hfields 3)
  obtain rfl : pinAuth = pinAuth' := Value.faithful_bytes.optional (hfields 4)
  obtain rfl : newPinEnc = newPinEnc' := Value.faithful_bytes.optional (hfields 5)
  obtain rfl : pinHashEnc = pinHashEnc' := Value.faithful_bytes.optional (hfields 6)
  rfl

/-! ## All requests -/

/-- A request with parameters. -/
inductive Request
  | makeCredential (r : MakeCredential)
  | getAssertion (r : GetAssertion)
  | clientPin (r : ClientPin)
  deriving DecidableEq

namespace Request

/-- The command of a request. -/
def command : Request → Command
  | makeCredential _ => .makeCredential
  | getAssertion _ => .getAssertion
  | clientPin _ => .clientPin

/-- The parameters of a request. -/
def toValue : Request → Value
  | makeCredential r => r.toValue
  | getAssertion r => r.toValue
  | clientPin r => r.toValue

/-- The encoded request. -/
def toBytes : Request → Bytes
  | makeCredential r => r.toBytes
  | getAssertion r => r.toBytes
  | clientPin r => r.toBytes

/-- A request is its command and its parameters. -/
theorem toBytes_eq (r : Request) : r.toBytes = r.command.toByte :: r.toValue.encode := by
  cases r <;> rfl

/-- A kind of request is told by its command, and the request by its parameters. -/
theorem eq_of_canon {r s : Request} (hcommand : r.command = s.command) (h : r.toValue.canon = s.toValue.canon) :
    r = s := by
  cases r with
  | makeCredential r =>
    cases s with
    | makeCredential s => exact congrArg makeCredential (MakeCredential.faithful_toValue r s h)
    | _ => cases hcommand
  | getAssertion r =>
    cases s with
    | getAssertion s => exact congrArg getAssertion (GetAssertion.faithful_toValue r s h)
    | _ => cases hcommand
  | clientPin r =>
    cases s with
    | clientPin s => exact congrArg clientPin (ClientPin.faithful_toValue r s h)
    | _ => cases hcommand

end Request

theorem Command.ofByte?_toByte (c : Command) : ofByte? c.toByte = some c := by
  cases c <;> rfl

/-- Requests with the same bytes are the same: of one kind, and equal in every part, however many of these are absent or
empty. -/
theorem Request.toBytes_injective {r s : Request} (hr : r.toValue.Fits) (hs : s.toValue.Fits)
    (h : r.toBytes = s.toBytes) : r = s := by
  rw [r.toBytes_eq, s.toBytes_eq] at h
  obtain ⟨hbyte, hencode⟩ := List.cons.inj h
  have hcommand : r.command = s.command := by
    apply Option.some.inj
    rw [← Command.ofByte?_toByte, hbyte, Command.ofByte?_toByte]
  exact eq_of_canon hcommand (Cbor.canon_eq_of_encode_eq hr hs hencode)

/-- A request to change the PIN, and the same request part by part. -/
theorem Request.toBytes_injective_changePin :
    let key : PublicKey := ⟨.ecdhEsHkdf256, .zero 32, .zero 32⟩
    let r : Request := .clientPin (.changePin 1 key [0xaa] [0xbb] [0xcc])
    let s : Request := .clientPin ⟨1, .changePin, some key, some [0xcc], some [0xaa], some [0xbb]⟩
    r.toValue.Fits ∧ s.toValue.Fits ∧ r.toBytes = s.toBytes ∧ r = s := by
  intro key r s
  have hr : r.toValue.Fits := by decide
  have hs : s.toValue.Fits := by decide
  have hbytes : r.toBytes = s.toBytes := rfl
  exact ⟨hr, hs, hbytes, toBytes_injective hr hs hbytes⟩

end Ctap

end SecurityKey
