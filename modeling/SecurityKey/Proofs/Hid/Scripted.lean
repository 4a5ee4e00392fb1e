import SecurityKey.Proofs.Hid.Reading
import SecurityKey.Proofs.Hid.Recording

/-!
# A device with a script

A device that takes every packet at once and lets the host read what its script has for that packet, until the script
is over. Whatever a link can live through with its device, some script brings it about.

- `transact_scripted`: a message of one packet is answered when the script has the answer;
- `transactWith_silent`: once the script is over, a message is written as often as it may be tried.
-/

namespace SecurityKey.Hid

/-- A device that follows a script, one entry a packet. -/
def scripted : Device (List (List Event)) := fun _ script => ⟨.ok (), 0, script.headD [], script.tail⟩

namespace Link

variable {config : Config} {l : Link (Recorded (List (List Event)))}

/-- The script goes on by one entry a packet. -/
theorem writePackets_scripted (hw : 0 < config.writeTimeout) {total : Nat} (packets : List Packet) :
    ∀ {written : Nat} {l : Link (Recorded (List (List Event)))},
      writePackets (recording scripted) config total written 0 packets l =
        (.ok (), { l with
          device := ⟨l.device.device.drop packets.length, l.device.packets ++ packets⟩
          inbox := l.inbox ++ (l.device.device.take packets.length).flatten }) := by
  induction packets with
  | nil =>
    intro written l
    simp [writePackets]
  | cons p rest ih =>
    intro written l
    rw [run_writePackets_cons, if_neg (by omega)]
    show writePackets (recording scripted) config total (written + 1) 0 rest _ = _
    rw [ih]
    cases h : l.device.device with
    | nil => simp [recording, scripted, h, Except.isOk, Except.toBool]
    | cons entry script => simp [recording, scripted, h, Except.isOk, Except.toBool]

/-- One exchange takes an entry of the script for each packet of the message. -/
theorem exchange_scripted {channel : UInt32} {request : Bytes} {packets : List Packet} (hw : 0 < config.writeTimeout)
    (hr : (⟨channel, .cbor, request⟩ : Message).toPackets = .ok packets) :
    exchange (recording scripted) config channel .cbor request l =
      let inbox := l.inbox ++ (l.device.device.take packets.length).flatten
      ((readAnswer .cbor (.idle channel) inbox).1, { l with
        device := ⟨l.device.device.drop packets.length, l.device.packets ++ packets⟩
        inbox := (readAnswer .cbor (.idle channel) inbox).2 }) := by
  rw [run_exchange, run_send, hr]
  simp only [writePackets_scripted hw]

/-- A message of one packet is answered when the script has the answer. -/
theorem transact_scripted {a : Allocation} {request data : Bytes} {p : Packet} {answer : List Packet}
    {script : List (List Event)} (hw : 0 < config.writeTimeout) (hc : l.channel = .allocated a) (hi : l.inbox = [])
    (hd : l.device.device = answer.map .packet :: script)
    (hr : (⟨a.channel, .cbor, request⟩ : Message).toPackets = .ok [p])
    (ha : (⟨a.channel, .cbor, data⟩ : Message).toPackets = .ok answer) :
    transact (recording scripted) config .cbor request l =
      (.ok data, { l with device := ⟨script, l.device.packets ++ [p]⟩ }) := by
  have hread : readAnswer .cbor (.idle a.channel) (answer.map .packet) = (.ok data, []) := by
    have h := readAnswer_completes (completes_toPackets ha) .cbor []
    rw [List.append_nil] at h
    exact h
  have hattempt : attempt (recording scripted) config .cbor request l =
      (.ok data, { l with device := ⟨script, l.device.packets ++ [p]⟩ }) := by
    rw [run_attempt_allocated _ _ hc, exchange_scripted hw hr, hi, hd]
    simp [hread]
  exact transactWith_of_ok _ _ hattempt _

/-- A message is written to a silent device as often as it may be tried. -/
theorem transactWith_silent {a : Allocation} {request : Bytes} {packets : List Packet} {p : Bytes → Bool}
    (hw : 0 < config.writeTimeout) (hr : (⟨a.channel, .cbor, request⟩ : Message).toPackets = .ok packets)
    (retries : Nat) :
    ∀ {l : Link (Recorded (List (List Event)))}, l.channel = .allocated a → l.inbox = [] → l.device.device = [] →
      (transactWith (recording scripted) config .cbor request retries l).1 = .error .timeout ∧
        (transactWith (recording scripted) config .cbor request retries l).2.heard p =
          l.heard p + (retries + 1) * weight config p .cbor request := by
  have hattempt : ∀ {l : Link (Recorded (List (List Event)))}, l.channel = .allocated a → l.inbox = [] →
      l.device.device = [] → ∃ l', attempt (recording scripted) config .cbor request l = (.error .timeout, l') ∧
        l'.channel = .allocated a ∧ l'.inbox = [] ∧ l'.device.device = [] ∧
        l'.heard p = l.heard p + weight config p .cbor request := by
    intro l hc hi hd
    have hs : send (recording scripted) config ⟨a.channel, .cbor, request⟩ l =
        (.ok (), { l with device := ⟨[], l.device.packets ++ packets⟩ }) := by
      rw [run_send, hr]
      simp [writePackets_scripted hw, hi, hd]
    have hm := messages_send hs
    refine ⟨{ l with device := ⟨[], l.device.packets ++ packets⟩, inbox := [] }, ?_, hc, rfl, rfl, ?_⟩
    · rw [run_attempt_allocated _ _ hc, exchange_scripted hw hr, hi, hd]
      simp [readAnswer]
    · have hne : config.writeTimeout ≠ 0 := by omega
      rw [heard, hm, List.countP_append, weight]
      congr 1
      show [_].countP _ = _
      rw [List.countP_singleton]
      simp [hne]
  induction retries with
  | zero =>
    intro l hc hi hd
    obtain ⟨l', ha, -, -, -, hh⟩ := hattempt hc hi hd
    rw [transactWith, run_attemptOr, ha]
    refine ⟨rfl, ?_⟩
    show heard p l' = _
    rw [hh, Nat.zero_add, Nat.one_mul]
  | succ retries ih =>
    intro l hc hi hd
    obtain ⟨l', ha, hc', hi', hd', hh⟩ := hattempt hc hi hd
    obtain ⟨hr, hn⟩ := ih hc' hi' hd'
    rw [transactWith, run_attemptOr, ha]
    refine ⟨hr, ?_⟩
    show heard p (transactWith (recording scripted) config .cbor request retries l').2 = _
    rw [hn, hh, Nat.succ_mul (retries + 1)]
    omega

end Link

end SecurityKey.Hid
