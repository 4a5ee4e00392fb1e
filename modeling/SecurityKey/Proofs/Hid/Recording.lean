import SecurityKey.Proofs.Hid.Hearing
import SecurityKey.Proofs.Hid.Runs

/-!
# Recorded packets

`recording device` is a device together with the packets it took. What the host writes is counted there.

- a message that is sent is heard when all of it is written (`messages_send`);
- `heard` counts the CTAP2 messages of a kind, and a message is heard at most as often as it may be tried
  (`adds_transact`).
-/

namespace SecurityKey.Hid

/-- A device and the packets it took. -/
structure Recorded (δ : Type) where
  device : δ
  packets : List Packet

namespace Recorded

/-- The whole messages among the packets. -/
def messages {δ : Type} (r : Recorded δ) : List Message := (Hearing.silence.hearAll r.packets).messages

end Recorded

/-- The device together with a record of the packets it takes. -/
def recording {δ : Type} (device : Device δ) : Device (Recorded δ) := fun p r =>
  let w := device p r.device
  { result := w.result
    elapsed := w.elapsed
    events := w.events
    device := { device := w.device, packets := if w.result.isOk then r.packets ++ [p] else r.packets } }

namespace Link

variable {δ : Type} {device : Device δ} {config : Config}

/-- Packets that are written are recorded, up to the one where writing ends. -/
theorem packets_writePackets {total : Nat} (packets : List Packet) {written elapsed : Nat} {l l' : Link (Recorded δ)}
    {result : Except SecurityKey.Link.Error Unit}
    (h : writePackets (recording device) config total written elapsed packets l = (result, l')) :
    ∃ part, part <+: packets ∧ l'.device.packets = l.device.packets ++ part ∧ (result = .ok () ↔ part = packets) := by
  refine writePackets_parts (R := fun part l l' => l'.device.packets = l.device.packets ++ part)
    (fun l => (List.append_nil _).symm) (fun p l e he => ?_) (fun p part l l' he hl => ?_) packets h
  · have he : (device p l.device.device).result = .error e := he
    simp [give, recording, he, Except.isOk, Except.toBool]
  · have he : (device p l.device.device).result = .ok () := he
    rw [hl]
    simp [give, recording, he, Except.isOk, Except.toBool]

/-- A message that is sent is heard when all of it is written, and nothing is heard otherwise. -/
theorem messages_send {m : Message} {l l' : Link (Recorded δ)} {result : Except SecurityKey.Link.Error Unit}
    (h : send (recording device) config m l = (result, l')) :
    l'.device.messages = l.device.messages ++ if result.isOk then [m] else [] := by
  rw [run_send] at h
  split at h
  · obtain ⟨rfl, rfl⟩ := Prod.mk.inj h
    simp [Except.isOk, Except.toBool]
  · rename_i packets hm
    obtain ⟨part, hp, hl, hr⟩ := packets_writePackets packets h
    have hheard := (Hearing.silence.hearAll l.device.packets).hearAll_toPackets hm
    rw [Recorded.messages, hl, Hearing.hearAll_append]
    match result with
    | .ok () =>
      rw [hr.mp rfl, hheard.1]
      rfl
    | .error e =>
      rw [hheard.2 part hp fun he => by cases hr.mpr he]
      simp [Except.isOk, Except.toBool, Recorded.messages]

/-! ## How often a message is heard -/

/-- How many of the CTAP2 messages that the device has heard are of a kind. -/
def heard (p : Bytes → Bool) (l : Link (Recorded δ)) : Nat :=
  l.device.messages.countP fun m => m.command = .cbor && p m.data

variable (device config) {p : Bytes → Bool}

/-- What a message adds at most when it is sent once. Without time to write, nothing is ever written. -/
def weight (p : Bytes → Bool) (command : Command) (payload : Bytes) : Nat :=
  if config.writeTimeout ≠ 0 ∧ command = .cbor ∧ p payload then 1 else 0

/-- Whoever sends a message has time to write. -/
theorem writeTimeout_of_send {δ : Type} {device : Device δ} {m : Message} {l l' : Link δ}
    (h : send device config m l = (.ok (), l')) : config.writeTimeout ≠ 0 := by
  rw [run_send] at h
  split at h
  · cases h
  · rename_i packets hm
    obtain ⟨p, rest, rfl, -⟩ := m.toPackets_cases hm
    intro h0
    rw [run_writePackets_cons, if_pos (Nat.le_of_eq h0)] at h
    cases h

/-- A message that is sent is heard at most once. -/
theorem adds_send (m : Message) :
    Action.Adds (heard p) (weight config p m.command m.data) (send (recording device) config m) := by
  intro l
  rcases h : send (recording device) config m l with ⟨result, t⟩
  unfold heard
  rw [messages_send h, List.countP_append]
  apply Nat.add_le_add_left
  match result with
  | .error e => exact Nat.zero_le _
  | .ok () =>
    have hw := writeTimeout_of_send config h
    show [m].countP _ ≤ _
    rw [List.countP_singleton, weight]
    simp [hw]

/-- A handshake brings no CTAP2 message. -/
theorem adds_handshake : Action.Adds (heard p) 0 (handshake (recording device) config) := by
  intro l
  have hs := adds_send device config (p := p)
    ⟨broadcastChannel, .init, (config.nonce l.handshakes).val⟩
    { l with channel := .closed, handshakes := l.handshakes + 1 }
  have hw : weight config p .init (config.nonce l.handshakes).val = 0 := by simp [weight]
  rw [run_handshake]
  simp only
  rcases h : send (recording device) config ⟨broadcastChannel, .init, (config.nonce l.handshakes).val⟩
    { l with channel := .closed, handshakes := l.handshakes + 1 } with ⟨e | x, t⟩
  · rw [h, hw] at hs
    exact hs
  · rw [h, hw] at hs
    simp only
    split
    · exact hs
    · exact hs

/-- One exchange. -/
theorem adds_exchange (channel : UInt32) (command : Command) (payload : Bytes) :
    Action.Adds (heard p) (weight config p command payload)
      (exchange (recording device) config channel command payload) := by
  intro l
  have hs := adds_send device config (p := p) ⟨channel, command, payload⟩ l
  rw [run_exchange]
  split
  · rename_i e t h
    rw [h] at hs
    exact hs
  · rename_i x t h
    rw [h] at hs
    exact hs

/-- One attempt, on a new channel where the old one is stale. -/
theorem adds_attempt (command : Command) (payload : Bytes) :
    Action.Adds (heard p) (weight config p command payload) (attempt (recording device) config command payload) := by
  refine Action.Adds.bind_zero (fun l => ?_) fun channel =>
    adds_exchange device config channel command payload
  rw [run_ensureChannel]
  split
  · exact Nat.le_refl _
  · have hh := adds_handshake device config (p := p) l
    split
    · rename_i e t h
      rw [h] at hh
      exact hh
    · rename_i a t h
      rw [h] at hh
      exact hh
  · exact Nat.le_refl _

/-- One attempt and what follows from it. -/
theorem adds_attemptOr {again : Action (Link (Recorded δ)) SecurityKey.Link.Error Bytes} {n : Nat} (command : Command)
    (payload : Bytes) (h : Action.Adds (heard p) n again) :
    Action.Adds (heard p) (weight config p command payload + n)
      (attemptOr (recording device) config again command payload) := by
  intro l
  have ha := adds_attempt device config (p := p) command payload l
  rw [run_attemptOr]
  rcases hr : attempt (recording device) config command payload l with ⟨e | x, t⟩
  · rw [hr] at ha
    simp only at ha ⊢
    split
    · have := h t
      omega
    · have ht : heard p (afterError e t) = heard p t := by rw [heard, heard, device_afterError]
      simp only [ht]
      omega
  · rw [hr] at ha
    simp only at ha ⊢
    omega

/-- All attempts at a message. -/
theorem adds_transactWith (command : Command) (payload : Bytes) (retries : Nat) :
    Action.Adds (heard p) ((retries + 1) * weight config p command payload)
      (transactWith (recording device) config command payload retries) := by
  induction retries with
  | zero =>
    have h := adds_attemptOr device config (p := p) (n := 0) command payload (.throw .timeout)
    exact h.mono (by omega)
  | succ retries ih =>
    have h := adds_attemptOr device config command payload ih
    have hn : (retries + 1 + 1) * weight config p command payload =
        weight config p command payload + (retries + 1) * weight config p command payload := by
      rw [Nat.succ_mul (retries + 1), Nat.add_comm]
    rw [hn]
    exact h

/-- A message is heard at most as often as it may be tried. -/
theorem adds_transact (command : Command) (payload : Bytes) :
    Action.Adds (heard p) (max 1 config.maxAttempts * weight config p command payload)
      (transact (recording device) config command payload) := by
  have h := adds_transactWith device config (p := p) command payload (config.maxAttempts - 1)
  have hm : config.maxAttempts - 1 + 1 = max 1 config.maxAttempts := by omega
  rwa [hm] at h

end Link

end SecurityKey.Hid
