import SecurityKey.Fido.Session
import SecurityKey.Hid.Card
import SecurityKey.Proofs.Exchange
import SecurityKey.Proofs.Hid.Runs

/-!
# CTAP2 messages over a HID link

A CTAP2 message over a HID link is one message of the link, however long it is and whatever the session thinks of
links of a chain (`run_ctap2Request`).
-/

namespace SecurityKey

variable {δ : Type} (device : Hid.Device δ) (link : Hid.Config)

namespace Hid

/-- An APDU that carries a CTAP2 message. -/
theorem run_transceive_ctap2 {c : Apdu.Command} (hc : carriesCtap2 c = true) (l : Link δ) :
    transceive device link c l =
      if l.isOpen then
        match Link.transact device link .cbor c.data l with
        | (.ok data, l) => (.ok (.ok data), l)
        | (.error e, l) => (.error e, l)
      else (.error .notConnected, l) := by
  unfold transceive
  rw [Action.run_bind, Action.run_get]
  simp only [hc]
  cases l.isOpen with
  | false => rfl
  | true =>
    simp only [Bool.not_true, Bool.false_eq_true, if_false, if_true, Action.run_bind, Action.run_pure]
    rcases Link.transact device link .cbor c.data l with ⟨e | x, t⟩ <;> rfl

end Hid

namespace Fido.Session

/-- The APDU of a CTAP2 message is sent as one message of the link. -/
theorem run_send_ctap2Apdu (request : Bytes) (l : Hid.Link δ) :
    Exchange.send (Hid.card device link) (ctap2Apdu request) l =
      if l.isOpen then
        match Hid.Link.transact device link .cbor request l with
        | (.ok data, l) => (.ok (.ok data), l)
        | (.error e, l) => (.error (.ofLink e), l)
      else (.error (.ofLink .notConnected), l) := by
  have hc : Hid.carriesCtap2 (ctap2Apdu request) = true := rfl
  have ht : (Hid.card device link).transceive (ctap2Apdu request) l = _ :=
    Hid.run_transceive_ctap2 device link hc l
  have hd : (ctap2Apdu request).data = request := rfl
  rw [Exchange.send, Action.run_adapt, ht, hd]
  cases l.isOpen with
  | false => rfl
  | true =>
    simp only [if_true]
    rcases Hid.Link.transact device link .cbor request l with ⟨e | x, t⟩ <;> rfl

/-- It needs no other command, and no chain. -/
theorem transmit_ctap2Apdu (request : Bytes) (size : Nat) (l : Hid.Link δ) :
    Exchange.transmit (Hid.card device link) (ctap2Apdu request) size l =
      Exchange.send (Hid.card device link) (ctap2Apdu request) l := by
  refine Exchange.transmit_eq_send size rfl fun r t hr => ?_
  rw [run_send_ctap2Apdu] at hr
  split at hr
  · split at hr
    · obtain ⟨rfl, -⟩ := Prod.mk.inj hr |>.imp_left Except.ok.inj
      exact Exchange.final_success
    · cases hr
  · cases hr

/-- An action of the card changes the card only. -/
theorem run_onCard {σ ε α : Type} (a : Action σ ε α) (s : Session σ) :
    onCard a s = ((a s.card).1, { s with card := (a s.card).2 }) := rfl

/-- The answer to a CTAP2 message is the data of one message of the link. -/
theorem run_ctap2Request (config : Config) (request : Bytes) (s : Session (Hid.Link δ)) :
    ctap2Request (Hid.card device link) config request s =
      if s.card.isOpen then
        match Hid.Link.transact device link .cbor request s.card with
        | (.ok data, l) => ((Ctap.parseResponse data).mapError Error.ofCtap, { s with card := l })
        | (.error e, l) => (.error (.ofLink e), { s with card := l })
      else (.error (.ofLink .notConnected), s) := by
  have ht : transmit (Hid.card device link) config (ctap2Apdu request) s = _ :=
    run_onCard (Exchange.transmit (Hid.card device link) (ctap2Apdu request) config.chunkSize) s
  rw [transmit_ctap2Apdu, run_send_ctap2Apdu] at ht
  unfold ctap2Request communicate
  rw [Action.run_bind, Action.run_bind, ht]
  cases s.card.isOpen with
  | false => rfl
  | true =>
    simp only [if_true]
    rcases Hid.Link.transact device link .cbor request s.card with ⟨e | data, l⟩ <;> rfl

end Fido.Session

end SecurityKey
