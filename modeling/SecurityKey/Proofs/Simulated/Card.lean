import SecurityKey.Fido.Session
import SecurityKey.Proofs.Exchange
import SecurityKey.Simulated.Card

/-!
# What a simulated card answers

- A card with a script gives the answers of the script one by one (`Card.transmit_scripted`);
- a card without a script but with an authenticator inside gives the authenticator's answers (`Card.send_holding`),
  and those to CTAP2 messages at once (`Card.transmit_holding`).

Both take commands in extended form, so that each command is sent once.
-/

namespace SecurityKey.Simulated

open Fido.Session (ctap2Apdu)

/-- A CTAP2 message is answered whatever becomes of it. -/
theorem Authenticator.process_ctap2Apdu {a : Authenticator} (ha : a.ctap2 = true) (message : Bytes) :
    a.process (ctap2Apdu message) = (.ok (match (ctap2Request message a).1 with
      | .ok v => Ctap.response (some v)
      | .error status => [status.toByte]), (ctap2Request message a).2) := by
  have hanswer : answer (ctap2Apdu message) a = ctap2Message message a := by
    unfold answer
    rw [Action.run_bind, Action.run_get]
    simp only [ha]
    rfl
  rw [process, hanswer, ctap2Message, Action.run_bind, Action.run_observe]
  rcases ctap2Request message a with ⟨_ | _, a'⟩ <;> rfl

namespace Card

/-! ## Scripts -/

/-- The card is connected, and the next commands are executed with the given data as their answers. -/
structure Scripted (c : Card) (answers : List Bytes) : Prop where
  connected : c.connected = true
  extended : c.extended = true
  undisturbed : c.interruption = none
  replies : c.replies = answers.map fun data => .bytes (Apdu.Response.ok data).toBytes

/-- A connected card with a script. -/
def ofScript (answers : List Bytes) : Card :=
  ⟨true, true, [], answers.map fun data => .bytes (Apdu.Response.ok data).toBytes, none, .attended, none, []⟩

theorem scripted_ofScript (answers : List Bytes) : (ofScript answers).Scripted answers := ⟨rfl, rfl, rfl, rfl⟩

theorem ofBytes_toBytes (r : Apdu.Response) : Apdu.Response.ofBytes r.toBytes = .ok r := by
  unfold Apdu.Response.ofBytes Apdu.Response.toBytes
  have hn : (r.data ++ [r.sw.sw1, r.sw.sw2]).length - 2 = r.data.length := by simp
  simp only [hn, List.drop_left, List.take_left]

/-- The next answer of the script. -/
theorem send_scripted {c : Card} {data : Bytes} {answers : List Bytes} (h : Scripted c (data :: answers))
    (command : Apdu.Command) : ∃ c', Exchange.send card command c = (.ok (.ok data), c') ∧ Scripted c' answers := by
  obtain ⟨hconnected, hextended, hundisturbed, hreplies⟩ := h
  refine ⟨{ c.note (.command command) with replies := answers.map fun data => .bytes (Apdu.Response.ok data).toBytes },
    ?_, ⟨hconnected, hextended, hundisturbed, rfl⟩⟩
  have hrun : card.transceive command c = (.ok (.ok data), { c.note (.command command) with
      replies := answers.map fun data => .bytes (Apdu.Response.ok data).toBytes }) := by
    have hnote : (c.note (.command command)).replies = c.replies := rfl
    show unlessInterrupted (transceive command) c = _
    unfold unlessInterrupted transceive
    simp only [Action.run_bind, Action.run_get, Action.run_modify, hundisturbed, hconnected, hnote, hreplies,
      Option.isSome_none, Bool.false_eq_true, if_false, Bool.not_true, Action.run_set, List.map_cons, Action.ofExcept,
      ofBytes_toBytes, Action.mapError_ok]
  rw [Exchange.send, Action.run_adapt, hrun]
  rfl

theorem transmit_scripted {c : Card} {data : Bytes} {answers : List Bytes} (h : Scripted c (data :: answers))
    (command : Apdu.Command) (size : Nat) :
    ∃ c', Exchange.transmit card command size c = (.ok (.ok data), c') ∧ Scripted c' answers := by
  obtain ⟨c', hsend, hc'⟩ := send_scripted h command
  refine ⟨c', ?_, hc'⟩
  rw [Exchange.transmit_eq_send size h.extended, hsend]
  intro r t hr
  rw [hsend] at hr
  cases hr
  exact Exchange.final_success

/-! ## An authenticator inside -/

/-- The CTAP2 message in a command, if it carries one. -/
def messageIn (command : Apdu.Command) : List Bytes := if command.ins = 0x10 then [command.data] else []

/-- The CTAP2 messages that a card was sent. -/
def messages (c : Card) : List Bytes :=
  c.deeds.filterMap fun d => match d with
    | .command command => if command.ins = 0x10 then some command.data else none
    | _ => none

/-- The card is connected to an authenticator whose touches are not withheld, and was sent these messages. -/
structure Holds (c : Card) (a : Authenticator) (heard : List Bytes) : Prop where
  connected : c.connected = true
  extended : c.extended = true
  undisturbed : c.interruption = none
  replies : c.replies = []
  sensor : c.sensor = .attended
  authenticator : c.authenticator = some a
  messages : c.messages = heard

/-- A connected card with an authenticator inside. -/
def ofAuthenticator (a : Authenticator) : Card := ⟨true, true, [], [], some a, .attended, none, []⟩

theorem holds_ofAuthenticator (a : Authenticator) : (ofAuthenticator a).Holds a [] :=
  ⟨rfl, rfl, rfl, rfl, rfl, rfl, rfl⟩

theorem messages_note (c : Card) (command : Apdu.Command) :
    (c.note (.command command)).messages = c.messages ++ messageIn command := by
  have hone : [Deed.command command].filterMap (fun d => match d with
      | .command command => if command.ins = 0x10 then some command.data else none
      | _ => none) = messageIn command := by
    unfold messageIn
    by_cases h : command.ins = 0x10 <;> simp [h]
  unfold Card.messages deeds note
  rw [List.reverse_cons, List.filterMap_append, hone]

section Holding

variable {c : Card} {a a' : Authenticator} {heard : List Bytes} (h : Holds c a heard)

include h

/-- The authenticator's answer. -/
theorem send_holding (command : Apdu.Command) : ∃ c', Exchange.send card command c = (.ok (a.process command).1, c') ∧
    Holds c' (a.process command).2 (heard ++ messageIn command) := by
  obtain ⟨hconnected, hextended, hundisturbed, hreplies, hsensor, ha, hmessages⟩ := h
  let c' : Card := { c.note (.command command) with
    replies := [], sensor := .attended, authenticator := some (a.process command).2 }
  have hrun : card.transceive command c = (.ok (a.process command).1, c') := by
    have hnote : (c.note (.command command)).replies = c.replies := rfl
    have hinside : (c.note (.command command)).authenticator = c.authenticator := rfl
    have htouch : (c.note (.command command)).sensor = c.sensor := rfl
    show unlessInterrupted (transceive command) c = _
    unfold unlessInterrupted transceive ask
    simp only [Action.run_bind, Action.run_get, Action.run_modify, hundisturbed, hconnected, hnote, hreplies, hinside,
      ha, htouch, hsensor, Sensor.interruption?, ite_self, Option.isSome_none, Bool.false_eq_true, if_false,
      Bool.not_true, Action.run_set, Action.run_pure]
    rfl
  refine ⟨c', ?_, hconnected, hextended, hundisturbed, rfl, rfl, rfl, ?_⟩
  · rw [Exchange.send, Action.run_adapt, hrun]
    rfl
  · rw [← hmessages]
    exact messages_note c command

/-- What the authenticator answers with success is the whole answer. -/
theorem transmit_of_process {command : Apdu.Command} {data : Bytes} (hprocess : a.process command = (.ok data, a'))
    (size : Nat) : ∃ c', Exchange.transmit card command size c = (.ok (.ok data), c') ∧
      Holds c' a' (heard ++ messageIn command) := by
  obtain ⟨c', hsend, hc'⟩ := send_holding h command
  rw [hprocess] at hsend hc'
  refine ⟨c', ?_, hc'⟩
  rw [Exchange.transmit_eq_send size h.extended, hsend]
  intro r t hr
  rw [hsend] at hr
  cases hr
  exact Exchange.final_success

/-- A CTAP2 message is answered at once. -/
theorem transmit_holding (ha : a.ctap2 = true) (message : Bytes) (size : Nat) :
    ∃ c', Exchange.transmit card (ctap2Apdu message) size c = (.ok (a.process (ctap2Apdu message)).1, c') ∧
      Holds c' (a.process (ctap2Apdu message)).2 (heard ++ [message]) := by
  have hprocess := Authenticator.process_ctap2Apdu ha message
  obtain ⟨c', htransmit, hc'⟩ := transmit_of_process h hprocess size
  rw [hprocess]
  exact ⟨c', htransmit, hc'⟩

end Holding

end Card

end SecurityKey.Simulated
