import SecurityKey.Proofs.Ctap.PinMessages
import SecurityKey.Proofs.Fido.PinAnswers
import SecurityKey.Proofs.Fido.PinSubmission
import SecurityKey.Proofs.Hid.Scripted

/-!
# A PIN that is submitted again

A device that answers up to the key agreement and then falls silent is sent the PIN once for each attempt the link may
make. So a PIN is submitted at most once in every call exactly when the link tries a message no more than once
(`submitsOnce_iff`).
-/

namespace SecurityKey.Fido.Pin

open Cbor.Value
open Credential (PublicKey)
open Crypto
open Ctap (ClientPin PinSubcommand)

/-! ## Answers from a script -/

section Script

variable {link : Hid.Config} {config : Config} {s : Session (Hid.Link (Hid.Recorded (List (List Hid.Event))))}
  {a : Hid.Allocation}

/-- A PIN request of one packet is answered when the script has the answer. -/
theorem run_request_scripted {r : ClientPin} {data : Bytes} {response : Ctap.PinResponse} {p : Hid.Packet}
    {answer : List Hid.Packet} {script : List (List Hid.Event)} (hw : 0 < link.writeTimeout)
    (hc : s.card.channel = .allocated a) (hi : s.card.inbox = [])
    (hd : s.card.device.device = answer.map .packet :: script)
    (hr : (⟨a.channel, .cbor, r.toBytes⟩ : Hid.Message).toPackets = .ok [p])
    (ha : (⟨a.channel, .cbor, data⟩ : Hid.Message).toPackets = .ok answer)
    (hp : ((Ctap.parseResponse data).toOption.bind fun b => (Ctap.PinResponse.ofValue? b).toOption) = some response) :
    request (Hid.card (Hid.recording Hid.scripted) link) config r s =
      (.ok response, { s with card := { s.card with device := ⟨script, s.card.device.packets ++ [p]⟩ } }) := by
  have ho : s.card.isOpen = true := by simp [Hid.Link.isOpen, hc]
  obtain ⟨b, hb, hv⟩ := Option.bind_eq_some_iff.mp hp
  have hb' := Action.eq_ok_of_toOption hb
  have hv' := Action.eq_ok_of_toOption hv
  unfold request
  rw [Action.run_bind, Session.run_ctap2Request, ho, Hid.Link.transact_scripted hw hc hi hd hr ha]
  simp only [if_true, hb', Action.mapError_ok, Action.ofExcept, hv']

/-- To a silent device a PIN is submitted as often as a message may be tried. -/
theorem submitted_submit_silent {before : UInt8} {r : ClientPin} {packets : List Hid.Packet}
    (hw : 0 < link.writeTimeout) (hc : s.card.channel = .allocated a) (hi : s.card.inbox = [])
    (hd : s.card.device.device = []) (hr : (⟨a.channel, .cbor, r.toBytes⟩ : Hid.Message).toPackets = .ok packets)
    (hs : submitsPin r.toBytes = true) :
    ∃ e t, submit (Hid.card (Hid.recording Hid.scripted) link) config before r s = (.error e, t) ∧
      submitted t = submitted s + max 1 link.maxAttempts := by
  have ho : s.card.isOpen = true := by simp [Hid.Link.isOpen, hc]
  obtain ⟨ht, hh⟩ := Hid.Link.transactWith_silent (p := submitsPin) hw hr (link.maxAttempts - 1) hc hi hd
  have hweight : Hid.Link.weight link submitsPin .cbor r.toBytes = 1 := by
    have : link.writeTimeout ≠ 0 := by omega
    simp [Hid.Link.weight, hs, this]
  rw [hweight, Nat.mul_one] at hh
  rcases htr : Hid.Link.transactWith (Hid.recording Hid.scripted) link .cbor r.toBytes (link.maxAttempts - 1) s.card
    with ⟨result, l⟩
  rw [htr] at ht hh
  have hrun : request (Hid.card (Hid.recording Hid.scripted) link) config r s =
      (.error (.ofLink .timeout), { s with card := l }) := by
    unfold request
    rw [Action.run_bind, Session.run_ctap2Request, ho, Hid.Link.transact, htr]
    simp only at ht
    simp only [ht, if_true]
  refine ⟨wrongPinError before (.ofLink .timeout), { s with card := l }, ?_, ?_⟩
  · rw [submit, Action.run_adapt, hrun]
    rfl
  · show l.heard submitsPin = _
    simp only at hh
    rw [hh, submitted]
    omega

end Script

/-! ## A device that falls silent -/

/-- A request for the attempts that are left, or for a key, is short. -/
theorem toBytes_getRetries : (ClientPin.getRetries protocol).toBytes = [0x06, 0xa2, 0x01, 0x01, 0x02, 0x01] := by
  have hk : KeysInOrder [1, 2, 3, 4, 5, 6] := by decide
  show 0x06 :: encode (ClientPin.getRetries protocol).toValue = _
  rw [ClientPin.toValue, encode_record]
  · decide
  · exact hk

theorem toBytes_getKeyAgreement :
    (ClientPin.getKeyAgreement protocol).toBytes = [0x06, 0xa2, 0x01, 0x01, 0x02, 0x02] := by
  have hk : KeysInOrder [1, 2, 3, 4, 5, 6] := by decide
  show 0x06 :: encode (ClientPin.getKeyAgreement protocol).toValue = _
  rw [ClientPin.toValue, encode_record]
  · decide
  · exact hk

/-- A session over a channel to a device that follows a script, with the packets the device took before. -/
def scriptedSession (a : Hid.Allocation) (script : List (List Hid.Event)) (packets : List Hid.Packet)
    (keysMade : Nat) : Session (Hid.Link (Hid.Recorded (List (List Hid.Event)))) :=
  { Session.new ⟨⟨script, packets⟩, [], .allocated a, 1⟩ with keysMade }

section Silence

variable (link : Hid.Config) (a : Hid.Allocation)

/-- A device that answers up to the key agreement. -/
theorem exists_agreement (hw : 0 < link.writeTimeout) :
    ∃ script p q agreement,
      checkRetries (Hid.card (Hid.recording Hid.scripted) link) (.standard fun _ => pairOfOne) false
        (scriptedSession a script [] 0) = (.ok 8, scriptedSession a (script.drop 1) [p] 0) ∧
      agree (Hid.card (Hid.recording Hid.scripted) link) (.standard fun _ => pairOfOne) none
        (scriptedSession a (script.drop 1) [p] 0) = (.ok agreement, scriptedSession a [] [p, q] 1) := by
  have hshort : (ClientPin.getRetries protocol).toBytes.length ≤ Hid.initialSize ∧
      (ClientPin.getKeyAgreement protocol).toBytes.length ≤ Hid.initialSize := by
    rw [toBytes_getRetries, toBytes_getKeyAgreement]
    decide
  have hmax : retriesAnswer.length ≤ Hid.maxMessageSize ∧ keyAnswer.length ≤ Hid.maxMessageSize := by decide +kernel
  obtain ⟨p, hp⟩ := Hid.toPackets_of_short a.channel .cbor hshort.1
  obtain ⟨q, hq⟩ := Hid.toPackets_of_short a.channel .cbor hshort.2
  obtain ⟨first, hfirst⟩ := Hid.exists_toPackets a.channel .cbor hmax.1
  obtain ⟨second, hsecond⟩ := Hid.exists_toPackets a.channel .cbor hmax.2
  obtain ⟨agreement, hagreement⟩ := exists_agreementWith_pairOfOne
  refine ⟨[first.map .packet, second.map .packet], p, q, agreement, ?_, ?_⟩
  · have h : request (Hid.card (Hid.recording Hid.scripted) link) (.standard fun _ => pairOfOne) (.getRetries protocol)
        (scriptedSession a [first.map .packet, second.map .packet] [] 0) =
        (.ok ⟨none, none, some 8⟩, scriptedSession a [second.map .packet] [p] 0) :=
      run_request_scripted hw rfl rfl rfl hp hfirst (by decide +kernel)
    unfold checkRetries getRetries
    rw [Action.run_bind, Action.run_bind, h]
    rfl
  · have h : request (Hid.card (Hid.recording Hid.scripted) link) (.standard fun _ => pairOfOne)
        (.getKeyAgreement protocol) (scriptedSession a [second.map .packet] [p] 0) =
        (.ok ⟨some (hostKey pairOfOne), none, none⟩, scriptedSession a [] [p, q] 0) :=
      run_request_scripted hw rfl rfl rfl hq hsecond (by decide +kernel)
    unfold agree hostPair
    rw [List.drop_one, List.tail_cons, Action.run_bind, h]
    simp only [Action.run_bind, Action.run_get, Action.run_set, Action.run_pure, Action.ofExcept]
    show ((agreementWith pairOfOne (hostKey pairOfOne)).mapError _, _) = _
    rw [hagreement]
    rfl

/-- A device that falls silent then is sent the PIN as often as a message may be tried. -/
theorem exists_submitted_silent (hw : 0 < link.writeTimeout) (pin : Pin) :
    ∃ script, submitted (scriptedSession a script [] 0) = 0 ∧
      submitted ((Use.getToken none pin false).run (Hid.card (Hid.recording Hid.scripted) link)
        (.standard fun _ => pairOfOne) (scriptedSession a script [] 0)) = max 1 link.maxAttempts := by
  obtain ⟨script, p, q, agreement, hretries, hagree⟩ := exists_agreement link a hw
  obtain ⟨enc, henc, hlen⟩ := pinHashEnc_eq agreement.sessionKey pin.text
  have hbounded : (ClientPin.getPinToken protocol agreement.hostKey enc).Bounded 16 := by
    refine ⟨fun _ h => (nomatch h), fun _ h => (nomatch h), fun b hb => ?_⟩
    obtain rfl := Option.some.inj hb
    exact hlen
  have hmax : (ClientPin.getPinToken protocol agreement.hostKey enc).toBytes.length ≤ Hid.maxMessageSize :=
    Nat.le_trans (ClientPin.length_toBytes_le hbounded) (by decide)
  obtain ⟨packets, hpackets⟩ := Hid.exists_toPackets a.channel .cbor hmax
  have hbefore : submitted (scriptedSession a [] [p, q] 1) = 0 := by
    have h1 := adds_checkRetries Hid.scripted link (.standard fun _ => pairOfOne) false (scriptedSession a script [] 0)
    have h2 := adds_agree Hid.scripted link (.standard fun _ => pairOfOne) none
      (scriptedSession a (script.drop 1) [p] 0)
    rw [hretries] at h1
    rw [hagree] at h2
    exact Nat.le_zero.mp (Nat.le_trans h2 h1)
  have hsilent : ∃ e t, submit (Hid.card (Hid.recording Hid.scripted) link) (.standard fun _ => pairOfOne) 8
      (.getPinToken protocol agreement.hostKey enc) (scriptedSession a [] [p, q] 1) = (.error e, t) ∧
      submitted t = submitted (scriptedSession a [] [p, q] 1) + max 1 link.maxAttempts :=
    submitted_submit_silent hw rfl rfl rfl hpackets (submitsPin_toBytes rfl)
  obtain ⟨e, t, hsubmit, ht⟩ := hsilent
  have hrun : getPinToken (Hid.card (Hid.recording Hid.scripted) link) (.standard fun _ => pairOfOne) none pin false
      (scriptedSession a script [] 0) = (.error e, t) := by
    unfold getPinToken
    rw [Action.bind_of_ok hretries, Action.bind_of_ok hagree, henc, Action.run_bind, Action.ofExcept]
    simp only [Action.mapError_ok]
    rw [Action.bind_of_error hsubmit]
  refine ⟨script, rfl, ?_⟩
  show submitted (getPinToken _ _ none pin false _).2 = _
  rw [hrun, ht, hbefore, Nat.zero_add]

end Silence

/-! ## Links that submit a PIN once -/

/-- Whether every call over the link submits the PIN at most once, whatever the device does. -/
def SubmitsOnce (link : Hid.Config) : Prop :=
  ∀ (δ : Type) (device : Hid.Device δ) (config : Config) (s : Session (Hid.Link (Hid.Recorded δ))) (u : Use),
    submitted (u.run (Hid.card (Hid.recording device) link) config s) ≤ submitted s + 1

/-- A link that tries a message again submits a PIN again. -/
theorem maxAttempts_le_of_submitsOnce {link : Hid.Config} (h : SubmitsOnce link) (hw : 0 < link.writeTimeout) :
    link.maxAttempts ≤ 1 := by
  let a : Hid.Allocation := ⟨.zero 8, 1, 2, 0, 0, 0, 0⟩
  obtain ⟨script, hzero, hn⟩ := exists_submitted_silent link a hw ⟨"1234"⟩
  have hle := h _ Hid.scripted (.standard fun _ => pairOfOne) (scriptedSession a script [] 0)
    (.getToken none ⟨"1234"⟩ false)
  omega

/-- A PIN is submitted at most once in every call exactly when the link tries a message no more than once, or never
gets to write one. -/
theorem submitsOnce_iff (link : Hid.Config) : SubmitsOnce link ↔ link.maxAttempts ≤ 1 ∨ link.writeTimeout = 0 := by
  constructor
  · intro h
    rcases Nat.eq_zero_or_pos link.writeTimeout with h0 | hw
    · exact .inr h0
    · exact .inl (maxAttempts_le_of_submitsOnce h hw)
  · intro h δ device config s u
    have hle := submitted_use_le device link config u s
    have htries : tries link ≤ 1 := by
      unfold tries
      split <;> omega
    omega

/-- With the usual limits of a link a PIN may be submitted again. -/
theorem not_submitsOnce_standard : ¬ SubmitsOnce (.standard fun _ => .zero 8) := by
  intro h
  have hle := maxAttempts_le_of_submitsOnce h (by decide)
  exact absurd hle (by decide)

end SecurityKey.Fido.Pin
