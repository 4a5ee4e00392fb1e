import SecurityKey.Fido.Pin
import SecurityKey.Proofs.Cbor.Record
import SecurityKey.Proofs.Fido.OverHid
import SecurityKey.Proofs.Hid.Recording

/-!
# How often a PIN is submitted

Each attempt at a wrong PIN costs one of the attempts that the authenticator grants. Over a HID link the request that
carries a PIN is a message like any other, and a message is tried again after a timeout or on a busy channel.

- `submitsPin` tells the messages that submit a PIN (`submitsPin_toBytes`);
- one call submits the PIN at most as often as the link tries a message (`submitted_use_le`).
-/

namespace SecurityKey.Fido

namespace Pin

open Ctap (ClientPin PinSubcommand)

/-! ## Messages that submit a PIN -/

/-- Whether a CTAP2 message submits a PIN: it is a PIN request, and its first two parameters are the protocol of this
module and the subcommand to change the PIN or to get a token for it. -/
def submitsPin : Bytes → Bool
  | 0x06 :: _ :: 0x01 :: 0x01 :: 0x02 :: subcommand :: _ => subcommand = 0x04 || subcommand = 0x05
  | _ => false

/-- A request of this protocol begins with its kind, its protocol and its subcommand. -/
theorem toBytes_eq {r : ClientPin} (h : r.pinProtocol = protocol) :
    ∃ first rest, r.toBytes = 0x06 :: first :: 0x01 :: 0x01 :: 0x02 :: r.subcommand.toByte :: rest := by
  have hb : r.toBytes = 0x06 :: Cbor.Value.encode r.toValue := rfl
  have hp : Cbor.Value.encodeField (1, some (.ofNat r.pinProtocol.toNat)) = [0x01, 0x01] := by
    rw [h]
    decide
  have hs : Cbor.Value.encodeField (2, some (.ofNat r.subcommand.toByte.toNat)) = [0x02, r.subcommand.toByte] := by
    cases r.subcommand <;> decide
  have hk : Cbor.Value.KeysInOrder [1, 2, 3, 4, 5, 6] := by decide
  rw [hb, ClientPin.toValue, Cbor.Value.encode_record, List.flatMap_cons, hp, List.flatMap_cons, hs]
  · generalize hn : (Cbor.Value.fieldEntries _).length = n
    have hlt : n < 24 := by
      rw [← hn]
      exact Nat.lt_of_le_of_lt (Cbor.Value.length_fieldEntries_le _) (by simp)
    rw [Cbor.header, if_pos hlt]
    exact ⟨_, _, rfl⟩
  · exact hk

/-- The requests that submit a PIN are told from the others. -/
theorem submitsPin_toBytes {r : ClientPin} (h : r.pinProtocol = protocol) :
    submitsPin r.toBytes = (r.subcommand = .changePin || r.subcommand = .getPinToken) := by
  obtain ⟨first, rest, hr⟩ := toBytes_eq h
  rw [hr]
  cases r.subcommand <;> rfl

/-! ## One call -/

section Bounds

variable {δ : Type} (device : Hid.Device δ) (link : Hid.Config) (config : Config)

/-- How often the device has heard a PIN being submitted. -/
def submitted (s : Session (Hid.Link (Hid.Recorded δ))) : Nat := s.card.heard submitsPin

/-- A CTAP2 message submits a PIN at most as often as the link tries it, and never if it is none that does. -/
theorem adds_ctap2Request (request : Bytes) : Action.Adds (submitted (δ := δ))
    (max 1 link.maxAttempts * Hid.Link.weight link submitsPin .cbor request)
    (Session.ctap2Request (Hid.card (Hid.recording device) link) config request) := by
  intro s
  have ht := Hid.Link.adds_transact device link (p := submitsPin) .cbor request s.card
  rw [Session.run_ctap2Request]
  split
  · split
    · rename_i data l h
      rw [h] at ht
      exact ht
    · rename_i e l h
      rw [h] at ht
      exact ht
  · exact Nat.le_add_right ..

/-- A PIN request that submits no PIN. -/
theorem adds_request_zero {r : ClientPin} (h : r.pinProtocol = protocol)
    (hs : r.subcommand ≠ .changePin ∧ r.subcommand ≠ .getPinToken) :
    Action.Adds (submitted (δ := δ)) 0 (request (Hid.card (Hid.recording device) link) config r) := by
  have hw : Hid.Link.weight link submitsPin .cbor r.toBytes = 0 := by
    simp [Hid.Link.weight, submitsPin_toBytes h, hs]
  have ha := adds_ctap2Request device link config r.toBytes
  rw [hw, Nat.mul_zero] at ha
  exact ha.bind_zero fun body => .ofExcept _ _

/-- How often a link may write a message. -/
def tries : Nat := if link.writeTimeout = 0 then 0 else max 1 link.maxAttempts

/-- A PIN request that submits a PIN. -/
theorem adds_submit (before : UInt8) (r : ClientPin) : Action.Adds (submitted (δ := δ)) (tries link)
    (submit (Hid.card (Hid.recording device) link) config before r) := by
  have hw : max 1 link.maxAttempts * Hid.Link.weight link submitsPin .cbor r.toBytes ≤ tries link := by
    unfold Hid.Link.weight tries
    by_cases h0 : link.writeTimeout = 0
    · simp [h0]
    · rw [if_neg h0]
      split <;> omega
  have ha := (adds_ctap2Request device link config r.toBytes).mono hw
  exact (ha.bind (k := 0) fun body => .ofExcept _ _).adapt _

/-- Asking for the attempts that are left submits nothing. -/
theorem adds_checkRetries (lastAttemptOk : Bool) : Action.Adds (submitted (δ := δ)) 0
    (checkRetries (Hid.card (Hid.recording device) link) config lastAttemptOk) := by
  have hr : Action.Adds (submitted (δ := δ)) 0 (getRetries (Hid.card (Hid.recording device) link) config) := by
    refine (adds_request_zero device link config rfl (by simp [ClientPin.getRetries])).bind_zero fun r => ?_
    split
    · exact .throw _
    · exact .pure _
  refine hr.bind_zero fun n => ?_
  split
  · exact .throw _
  · split
    · exact .throw _
    · exact .pure _

/-- A key agreement submits nothing. -/
theorem adds_agree (secret : Option Bytes) : Action.Adds (submitted (δ := δ)) 0
    (agree (Hid.card (Hid.recording device) link) config secret) := by
  refine (adds_request_zero device link config rfl (by simp [ClientPin.getKeyAgreement])).bind_zero fun r => ?_
  split
  · exact .throw _
  · refine .bind_zero ?_ fun k => .ofExcept _ _
    unfold hostPair
    split
    · exact .ofExcept _ _
    · exact .get_bind fun s => Nat.le_refl _

/-- A call that submits a PIN. -/
inductive Use
  /-- The token for a PIN is asked for. -/
  | getToken (secret : Option Bytes) (pin : Pin) (lastAttemptOk : Bool)
  | change (secret : Option Bytes) (current newPin : Pin) (lastAttemptOk : Bool)

/-- What a call leaves behind. -/
def Use.run {σ : Type} (card : Card σ) (config : Config) (s : Session σ) : Use → Session σ
  | getToken secret pin lastAttemptOk => (getPinToken card config secret pin lastAttemptOk s).2
  | change secret current newPin lastAttemptOk => (changePin card config secret current newPin lastAttemptOk s).2

/-- One call submits the PIN at most as often as the link may write a message. -/
theorem submitted_use_le (u : Use) (s : Session (Hid.Link (Hid.Recorded δ))) :
    submitted (u.run (Hid.card (Hid.recording device) link) config s) ≤ submitted s + tries link := by
  have hsub := fun before r => adds_submit device link config before r
  cases u with
  | getToken secret pin lastAttemptOk =>
    have h : Action.Adds (submitted (δ := δ)) (tries link)
        (getPinToken (Hid.card (Hid.recording device) link) config secret pin lastAttemptOk) := by
      refine (adds_checkRetries device link config lastAttemptOk).bind_zero fun retries => ?_
      refine (adds_agree device link config secret).bind_zero fun a => ?_
      refine Action.Adds.bind_zero (.ofExcept _ _) fun pinHashEnc => ?_
      refine (hsub retries _).bind (k := 0) fun r => ?_
      split
      · exact .throw _
      · exact .ofExcept _ _
    exact h s
  | change secret current newPin lastAttemptOk =>
    have h : Action.Adds (submitted (δ := δ)) (tries link)
        (changePin (Hid.card (Hid.recording device) link) config secret current newPin lastAttemptOk) := by
      refine Action.Adds.bind_zero (.ofExcept _ _) fun _ => ?_
      refine (adds_checkRetries device link config lastAttemptOk).bind_zero fun retries => ?_
      refine (adds_agree device link config secret).bind_zero fun a => ?_
      refine Action.Adds.bind_zero (.ofExcept _ _) fun newPinEnc => ?_
      refine Action.Adds.bind_zero (.ofExcept _ _) fun pinHashEnc => ?_
      refine Action.Adds.bind_zero (.modify fun s => rfl) fun _ => ?_
      exact (hsub retries _).bind (k := 0) fun r => .pure _
    exact h s

end Bounds

end Pin

end SecurityKey.Fido
