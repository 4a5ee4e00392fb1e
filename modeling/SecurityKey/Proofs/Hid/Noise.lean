import SecurityKey.Proofs.Hid.Reading
import SecurityKey.Proofs.Hid.Recording

/-!
# Noise on the link

Between two messages a host passes over keepalives of its channel and whatever is sent on other channels. A device that
says more of that is no other device to it.

- `Noisy`: the same events with such packets put in wherever the listener is idle; they are read as the same answer
  (`readAnswer_noisy`);
- `Louder`: a device that does the same as another one but for such packets;
- a message to the louder device has the same result, writes the same packets and leaves the same link
  (`transact_unaffected_by_noise`).
-/

namespace SecurityKey.Hid

open Reassembler (Completes)

/-! ## Listening -/

namespace Reassembler

/-- The listener after an event. Whatever is not a packet ends the message under way. -/
def listen (r : Reassembler) : Event → Reassembler
  | .packet p => (r.feed p).2
  | .quiet _ => r.reset
  | .failure _ => r.reset

/-- The listener after events, in order. -/
def listenAll (r : Reassembler) (events : List Event) : Reassembler := events.foldl listen r

variable {r r' : Reassembler} {p : Packet}

@[simp]
theorem channel_feed (r : Reassembler) (p : Packet) : (r.feed p).2.channel = r.channel := by
  simp only [feed]
  split <;> rfl

/-- A message is never kept behind an error. -/
theorem eq_idle_of_error {e : SecurityKey.Link.Error} (h : r.feed p = (.error e, r')) : r' = .idle r.channel := by
  simp only [feed] at h
  split at h
  · cases h
  · cases h
    rfl

theorem eq_none_of_settle {channel : UInt32} {part : Partial} {m : Message} {pending : Option Partial}
    (h : settle channel part = (some m, pending)) : pending = none := by
  unfold settle at h
  split at h
  · cases h
    rfl
  · cases h

theorem eq_none_of_start {channel : UInt32} {m : Message} {pending : Option Partial}
    (h : start channel p = .ok (some m, pending)) : pending = none := by
  unfold start at h
  split at h
  · cases h
  · cases p with
    | continuation => cases h
    | initial =>
      simp only at h
      split at h
      · cases h
      · split at h
        · cases h
        · exact eq_none_of_settle (Except.ok.inj h)

theorem eq_none_of_resume {channel : UInt32} {part : Partial} {m : Message} {pending : Option Partial}
    (h : resume channel part p = .ok (some m, pending)) : pending = none := by
  unfold resume at h
  split at h
  · cases h
  · cases p with
    | initial => cases h
    | continuation =>
      simp only at h
      split at h
      · cases h
      · exact eq_none_of_settle (Except.ok.inj h)

/-- A part of a message is kept only until it is whole. -/
theorem eq_idle_of_message {m : Message} (h : r.feed p = (.ok (some m), r')) : r' = .idle r.channel := by
  simp only [feed] at h
  split at h
  · rename_i hheard
    cases h
    split at hheard
    · rw [eq_none_of_start hheard]
      rfl
    · rw [eq_none_of_resume hheard]
      rfl
  · cases h

end Reassembler

/-! ## Noise -/

/-- Packets that say nothing to a host between two messages: one of another channel, or those of a keepalive. -/
inductive Noise (channel : UInt32) : List Packet → Prop
  | foreign {p : Packet} (h : p.channel ≠ channel) : Noise channel [p]
  | keepalive {data : Bytes} {packets : List Packet}
      (h : Completes ⟨channel, .keepalive, data⟩ (.idle channel) packets) : Noise channel packets

/-- The packet that keeps a message alive is noise. -/
theorem noise_keepalive (channel : UInt32) (status : UInt8) : Noise channel [.keepalive channel status] :=
  .keepalive (completes_toPackets (m := ⟨channel, .keepalive, [status]⟩) rfl)

/-- Events, and the same ones with noise put in wherever the listener is idle. -/
inductive Noisy (channel : UInt32) : Reassembler → List Event → List Event → Prop
  | nil (r : Reassembler) : Noisy channel r [] []
  | event {r : Reassembler} (e : Event) {events events' : List Event} (h : Noisy channel (r.listen e) events events') :
      Noisy channel r (e :: events) (e :: events')
  | noise {packets : List Packet} {events events' : List Event} (hnoise : Noise channel packets)
      (h : Noisy channel (.idle channel) events events') :
      Noisy channel (.idle channel) events (packets.map .packet ++ events')

section Noisy

variable {channel : UInt32} {r : Reassembler} {events events' more more' : List Event}

/-- Without any noise. -/
theorem Noisy.refl (channel : UInt32) (r : Reassembler) (events : List Event) : Noisy channel r events events := by
  induction events generalizing r with
  | nil => exact .nil r
  | cons e _ ih => exact .event e (ih _)

/-- Noise in one part of the events and in the next. -/
theorem Noisy.append (h : Noisy channel r events events') (hmore : Noisy channel (r.listenAll events) more more') :
    Noisy channel r (events ++ more) (events' ++ more') := by
  induction h with
  | nil => exact hmore
  | event e _ ih => exact .event e (ih hmore)
  | noise hnoise _ ih =>
    rw [List.append_assoc]
    exact .noise hnoise (ih hmore)

/-- Noise is passed over by a host between two messages. -/
theorem readAnswer_of_noise {packets : List Packet} (h : Noise channel packets) (command : Command)
    (rest : List Event) : Link.readAnswer command (.idle channel) (packets.map .packet ++ rest) =
      Link.readAnswer command (.idle channel) rest := by
  cases h with
  | foreign h => rw [List.map_singleton, List.singleton_append, Link.readAnswer, Link.feed_of_other h]
  | keepalive h => rw [Link.readAnswer_completes h, if_pos rfl]

/-- The same answer is read with noise and without, and what is left differs in noise only. -/
theorem readAnswer_noisy (command : Command) (h : Noisy channel r events events') (hr : r.channel = channel) :
    (Link.readAnswer command r events').1 = (Link.readAnswer command r events).1 ∧
      Noisy channel (.idle channel) (Link.readAnswer command r events).2 (Link.readAnswer command r events').2 := by
  induction h with
  | nil => exact ⟨rfl, .nil _⟩
  | noise hnoise _ ih =>
    rw [readAnswer_of_noise hnoise]
    exact ih rfl
  | @event r e rest rest' h ih =>
    have hidle : r.reset = .idle channel := by rw [← hr]; rfl
    cases e with
    | quiet =>
      refine ⟨rfl, ?_⟩
      rw [← hidle]
      exact h
    | failure =>
      refine ⟨rfl, ?_⟩
      rw [← hidle]
      exact h
    | packet p =>
      have hchannel := (Reassembler.channel_feed r p).trans hr
      rcases hfeed : r.feed p with ⟨e | _ | m, r'⟩
      all_goals
        simp only [Reassembler.listen, hfeed] at h ih hchannel
        rw [Link.readAnswer, Link.readAnswer, hfeed]
      · obtain rfl := Reassembler.eq_idle_of_error hfeed
        exact ⟨rfl, hr ▸ h⟩
      · exact ih hchannel
      · obtain rfl := Reassembler.eq_idle_of_message hfeed
        rw [hr] at h ih
        simp only [hr]
        split
        · exact ih rfl
        · split
          · exact ⟨rfl, h⟩
          · split <;> exact ⟨rfl, h⟩

end Noisy

/-! ## Louder devices -/

/-- A device that does the same as another one, but for noise that it lets the host read wherever the host is between
two messages. Which states belong together may depend on what the host has not read of the quieter device yet. -/
structure Louder {δ δ' : Type} (channel : UInt32) (device : Device δ) (device' : Device δ') where
  together : δ → δ' → List Event → Prop
  result : ∀ {d d' unread}, together d d' unread → ∀ p, (device' p d').result = (device p d).result
  elapsed : ∀ {d d' unread}, together d d' unread → ∀ p, (device' p d').elapsed = (device p d).elapsed
  events : ∀ {d d' unread}, together d d' unread → ∀ p,
    Noisy channel (Reassembler.listenAll (.idle channel) unread) (device p d).events (device' p d').events
  written : ∀ {d d' unread}, together d d' unread → ∀ p,
    together (device p d).device (device' p d').device (unread ++ (device p d).events)
  read : ∀ {d d' unread}, together d d' unread → ∀ command,
    together d d' (Link.readAnswer command (.idle channel) unread).2

namespace Link

variable {δ δ' : Type} {device : Device δ} {device' : Device δ'} {config : Config} {channel : UInt32}

/-- Two links are the same but for noise. -/
structure InStep (louder : Louder channel device device') (l : Link δ) (l' : Link δ') : Prop where
  device : louder.together l.device l'.device l.inbox
  inbox : Noisy channel (.idle channel) l.inbox l'.inbox
  channel : l'.channel = l.channel
  handshakes : l'.handshakes = l.handshakes

/-- Two actions come to the same on links that are the same but for noise, and leave such links. -/
def Agree {α : Type} (louder : Louder channel device device') (a : Action (Link δ) SecurityKey.Link.Error α)
    (a' : Action (Link δ') SecurityKey.Link.Error α) : Prop :=
  ∀ {l l'}, InStep louder l l' → (a' l').1 = (a l).1 ∧ InStep louder (a l).2 (a' l').2

section Agree

variable {louder : Louder channel device device'} {l : Link δ} {l' : Link δ'}

/-- A packet given to both devices. -/
theorem InStep.give (h : InStep louder l l') (p : Packet) : InStep louder (l.give device p) (l'.give device' p) where
  device := louder.written h.device p
  inbox := h.inbox.append (louder.events h.device p)
  channel := h.channel
  handshakes := h.handshakes

theorem agree_writePackets (louder : Louder channel device device') (total : Nat) (packets : List Packet)
    (written elapsed : Nat) : Agree louder (writePackets device config total written elapsed packets)
      (writePackets device' config total written elapsed packets) := by
  induction packets generalizing written elapsed with
  | nil => exact fun h => ⟨rfl, h⟩
  | cons p rest ih =>
    intro l l' h
    rw [run_writePackets_cons, run_writePackets_cons]
    split
    · exact ⟨rfl, h⟩
    · simp only [louder.result h.device p, louder.elapsed h.device p]
      split
      · exact ⟨rfl, h.give p⟩
      · exact ih _ _ (h.give p)

variable (config) in
theorem agree_send (louder : Louder channel device device') (m : Message) :
    Agree louder (send device config m) (send device' config m) := by
  intro l l' h
  rw [run_send, run_send]
  cases m.toPackets with
  | error => exact ⟨rfl, h⟩
  | ok packets => exact agree_writePackets louder _ packets 0 0 h

variable (config) in
/-- A message and its answer. -/
theorem agree_exchange (louder : Louder channel device device') (command : Command) (payload : Bytes) :
    Agree louder (exchange device config channel command payload)
      (exchange device' config channel command payload) := by
  intro l l' h
  obtain ⟨hresult, hstep⟩ := agree_send config louder ⟨channel, command, payload⟩ h
  rw [run_exchange, run_exchange]
  rcases hl : send device config ⟨channel, command, payload⟩ l with ⟨r, t⟩
  rcases hl' : send device' config ⟨channel, command, payload⟩ l' with ⟨r', t'⟩
  rw [hl, hl'] at hresult hstep
  obtain rfl : r' = r := hresult
  cases r' with
  | error => exact ⟨rfl, hstep⟩
  | ok =>
    obtain ⟨hanswer, hrest⟩ := readAnswer_noisy command hstep.inbox rfl
    exact ⟨hanswer, louder.read hstep.device command, hrest, hstep.channel, hstep.handshakes⟩

end Agree

/-- An error ends the use of both channels or of neither. -/
theorem InStep.afterError {louder : Louder channel device device'} {l : Link δ} {l' : Link δ'}
    (h : InStep louder l l') (e : SecurityKey.Link.Error) :
    InStep louder (Link.afterError e l) (Link.afterError e l') := by
  unfold Link.afterError
  rw [h.channel]
  split
  · split
    · exact ⟨h.device, h.inbox, rfl, h.handshakes⟩
    · exact h
  · exact h

variable (config) in
/-- A message on an open channel, however often it is tried. -/
theorem agree_transactWith {a : Allocation} (louder : Louder a.channel device device') (command : Command)
    (payload : Bytes) (retries : Nat) {l : Link δ} {l' : Link δ'} (hopen : l.channel = .allocated a)
    (h : InStep louder l l') :
    (transactWith device' config command payload retries l').1 =
        (transactWith device config command payload retries l).1 ∧
      InStep louder (transactWith device config command payload retries l).2
        (transactWith device' config command payload retries l').2 := by
  -- what comes next where an attempt has to be made again
  have hattempt : ∀ {again : Action (Link δ) SecurityKey.Link.Error Bytes}
      {again' : Action (Link δ') SecurityKey.Link.Error Bytes} {l : Link δ} {l' : Link δ'},
      l.channel = .allocated a → InStep louder l l' →
      (∀ {t t'}, t.channel = .allocated a → InStep louder t t' →
        (again' t').1 = (again t).1 ∧ InStep louder (again t).2 (again' t').2) →
      (attemptOr device' config again' command payload l').1 = (attemptOr device config again command payload l).1 ∧
        InStep louder (attemptOr device config again command payload l).2
          (attemptOr device' config again' command payload l').2 := by
    intro again again' l l' hopen h hagain
    have hchannel := channel_exchange device config a.channel command payload l
    obtain ⟨hresult, hstep⟩ := agree_exchange config louder command payload h
    rw [run_attemptOr, run_attemptOr, run_attempt_allocated device config hopen,
      run_attempt_allocated device' config (h.channel.trans hopen)]
    rcases hl : exchange device config a.channel command payload l with ⟨r, t⟩
    rcases hl' : exchange device' config a.channel command payload l' with ⟨r', t'⟩
    rw [hl, hl'] at hresult hstep
    rw [hl] at hchannel
    obtain rfl : r' = r := hresult
    cases r' with
    | ok => exact ⟨rfl, hstep⟩
    | error e =>
      simp only
      split
      · exact hagain (hchannel.trans hopen) hstep
      · exact ⟨rfl, hstep.afterError e⟩
  induction retries generalizing l l' with
  | zero => exact hattempt hopen h fun _ ht => ⟨rfl, ht⟩
  | succ retries ih => exact hattempt hopen h ih

end Link

/-- A louder device is louder where the packets of both are recorded, and they are the same. -/
def Louder.recording {δ δ' : Type} {channel : UInt32} {device : Device δ} {device' : Device δ'}
    (louder : Louder channel device device') : Louder channel (recording device) (recording device') where
  together r r' unread := louder.together r.device r'.device unread ∧ r'.packets = r.packets
  result h p := louder.result h.1 p
  elapsed h p := louder.elapsed h.1 p
  events h p := louder.events h.1 p
  written {r r' unread} h p := by
    refine ⟨louder.written h.1 p, ?_⟩
    show (if (device' p r'.device).result.isOk then r'.packets ++ [p] else r'.packets) = _
    rw [louder.result h.1 p, h.2]
    rfl
  read h command := ⟨louder.read h.1 command, h.2⟩

namespace Link

variable {δ δ' : Type} {device : Device δ} {device' : Device δ'}

/-- **Noise does not matter.** On an open channel a message to a louder device has the same result as to the quieter
one, whatever both do with the packets, however often the message may be tried, and with whatever there is to read: the
same packets are written, the channel is in the same state, and what is left to read differs in noise only. -/
theorem transact_unaffected_by_noise {a : Allocation} (louder : Louder a.channel device device') (config : Config)
    (command : Command) (payload : Bytes) {l : Link (Recorded δ)} {l' : Link (Recorded δ')}
    (hopen : l.channel = .allocated a) (h : InStep louder.recording l l') :
    (transact (recording device') config command payload l').1 =
        (transact (recording device) config command payload l).1 ∧
      (transact (recording device') config command payload l').2.device.packets =
        (transact (recording device) config command payload l).2.device.packets ∧
      (transact (recording device') config command payload l').2.channel =
        (transact (recording device) config command payload l).2.channel ∧
      InStep louder.recording (transact (recording device) config command payload l).2
        (transact (recording device') config command payload l').2 := by
  obtain ⟨hresult, hstep⟩ := agree_transactWith config louder.recording command payload
    (config.maxAttempts - 1) hopen h
  exact ⟨hresult, hstep.device.2, hstep.channel, hstep⟩

/-- An empty pong on channel 7. -/
def pong : Event := .packet (.first 7 .ping 0 [])

/-- A device that answers every packet with an empty pong. -/
def ponging : Device Unit := fun _ _ => ⟨.ok (), 0, [pong], ()⟩

/-- The same device, but that it sends a keepalive and a packet on another channel in front. -/
def chattering : Device Unit := fun _ _ =>
  ⟨.ok (), 0, [.packet (.keepalive 7 1), .packet (.first 9 .ping 0 []), pong], ()⟩

/-- Nothing is ever under way behind pongs. -/
theorem listenAll_pongs {events : List Event} (h : ∀ e ∈ events, e = pong) :
    Reassembler.listenAll (.idle 7) events = .idle 7 := by
  induction events with
  | nil => rfl
  | cons e rest ih =>
    obtain ⟨rfl, hrest⟩ := List.forall_mem_cons.mp h
    exact ih hrest

def louderChattering : Louder 7 ponging chattering where
  together _ _ unread := ∀ e ∈ unread, e = pong
  result _ _ := rfl
  elapsed _ _ := rfl
  events h p := by
    rw [listenAll_pongs h]
    exact .noise (noise_keepalive 7 1) (.noise (.foreign (p := .first 9 .ping 0 []) (by decide)) (.refl 7 _ [pong]))
  written h p := by
    intro e he
    rcases List.mem_append.mp he with he | he
    · exact h e he
    · exact List.mem_singleton.mp he
  read h command e he := h e ((readAnswer_suffix command _ _).subset he)

/-- A link on channel 7 to a device whose packets are recorded, with nothing to read. -/
def onChannelSeven : Link (Recorded Unit) := ⟨⟨(), []⟩, [], .allocated ⟨.zero 8, 7, 2, 0, 0, 0, 0⟩, 1⟩

/-- A chattering device answers a ping like the one that only answers. -/
theorem transact_unaffected_by_noise_chattering :
    onChannelSeven.channel = .allocated ⟨.zero 8, 7, 2, 0, 0, 0, 0⟩ ∧
      InStep louderChattering.recording onChannelSeven onChannelSeven ∧
      (transact (recording chattering) (.standard fun _ => .zero 8) .ping [] onChannelSeven).1 = .ok [] ∧
      (transact (recording chattering) (.standard fun _ => .zero 8) .ping [] onChannelSeven).2.device.packets =
        [.first 7 .ping 0 []] := by
  have hstep : InStep louderChattering.recording onChannelSeven onChannelSeven :=
    ⟨⟨(fun _ h => nomatch h), rfl⟩, .nil _, rfl, rfl⟩
  obtain ⟨hresult, hpackets, -⟩ := transact_unaffected_by_noise louderChattering (.standard fun _ => .zero 8) .ping []
    (a := ⟨.zero 8, 7, 2, 0, 0, 0, 0⟩) rfl hstep
  exact ⟨rfl, hstep, hresult.trans rfl, hpackets.trans rfl⟩

end Link

end SecurityKey.Hid
