import SecurityKey.Proofs.Hid.Reading
import SecurityKey.Proofs.Hid.Runs

/-!
# Devices that answer in order

A respondent answers every message it hears exactly once, in order and on the channel of the message, but at leisure:
pauses and keepalives come in between, and packets may be held back until the host writes again.

- `Respondent`: such a device, with what it has heard, what it has replied and which packets it owes;
- `Respondent.after`: the link to a respondent after some calls;
- `Respondent.InStep`: messages spell what is still to be read, and their answers are the last of the replies. Every
  call keeps it (`inStep_after`).
-/

namespace SecurityKey.Hid

/-- Whether a message answers another one. -/
def Message.isAnswer (m : Message) : Bool := m.command ≠ .keepalive

/-- A message and the answer to it. -/
structure Reply where
  request : Message
  answer : Message

/-- A device that answers in order. -/
structure Respondent (δ : Type) where
  device : Device δ
  /-- The device before the first packet. -/
  start : δ
  hearing : δ → Hearing
  replies : δ → List Reply
  /-- Packets of its messages that the device holds back. -/
  owed : δ → List Packet
  hearing_start : hearing start = .silence
  owed_start : owed start = []
  /-- The device hears the packets that it takes. -/
  hears : ∀ p d, hearing (device p d).device = if (device p d).result.isOk then (hearing d).hear p else hearing d
  /-- Every message is answered once, in order. -/
  answers_once : ∀ d, (replies d).map Reply.request = (hearing d).messages
  /-- An answer is on the channel of its message. -/
  answers_on_channel : ∀ d, ∀ x ∈ replies d, x.answer.channel = x.request.channel
  /-- New answers, with keepalives among them, come after the packets that are owed. -/
  delivers : ∀ p d, ∃ given news, replies (device p d).device = replies d ++ given ∧
    news.filter Message.isAnswer = given.map Reply.answer ∧ (∀ m ∈ news, m.Fits) ∧
    packetsIn (device p d).events ++ owed (device p d).device = owed d ++ wire news

namespace Respondent

variable {δ : Type} (r : Respondent δ)

/-- The packets still to be read, those that are held back included. -/
def stream (l : Link δ) : List Packet := packetsIn l.inbox ++ r.owed l.device

/-- The messages that the device has heard. -/
def heard (l : Link δ) : List Message := (r.hearing l.device).messages

/-- The answers still to be read. -/
def unread (l : Link δ) : List Message := (messagesIn (r.stream l)).filter Message.isAnswer

/-! ## Calls -/

/-- A call of the host. -/
inductive Call
  | handshake
  | transact (command : Command) (payload : Bytes)
  | release

/-- The link after a call. -/
def call (config : Config) (l : Link δ) : Call → Link δ
  | .handshake => (Link.handshake r.device config l).2
  | .transact command payload => (Link.transact r.device config command payload l).2
  | .release => l.release

/-- The link after some calls. -/
def after (config : Config) (calls : List Call) : Link δ := calls.foldl (r.call config) (Link.new r.start)

/-! ## Deliveries -/

/-- Between two links some answers were given, and some messages were added to the stream. -/
structure Delivers (given : List Reply) (news : List Message) (l l' : Link δ) : Prop where
  replies : r.replies l'.device = r.replies l.device ++ given
  answers : news.filter Message.isAnswer = given.map Reply.answer
  fits : ∀ m ∈ news, m.Fits
  stream : r.stream l' = r.stream l ++ wire news

variable {r} {given given' : List Reply} {news news' : List Message} {l l' l'' : Link δ}

theorem Delivers.nil (hd : l'.device = l.device) (hi : l'.inbox = l.inbox) : r.Delivers [] [] l l' := by
  refine ⟨by simp [hd], rfl, by simp, ?_⟩
  simp [Respondent.stream, hd, hi, wire]

theorem Delivers.append (h : r.Delivers given news l l') (h' : r.Delivers given' news' l' l'') :
    r.Delivers (given ++ given') (news ++ news') l l'' := by
  refine ⟨?_, ?_, fun m hm => ?_, ?_⟩
  · rw [h'.replies, h.replies, List.append_assoc]
  · rw [List.filter_append, h.answers, h'.answers, List.map_append]
  · rcases List.mem_append.mp hm with hm | hm
    · exact h.fits m hm
    · exact h'.fits m hm
  · rw [h'.stream, h.stream, wire_append, List.append_assoc]

/-- A packet given to the device. -/
theorem delivers_give (p : Packet) (l : Link δ) : ∃ given news, r.Delivers given news l (l.give r.device p) := by
  obtain ⟨given, news, hr, ha, hf, hs⟩ := r.delivers p l.device
  refine ⟨given, news, hr, ha, hf, ?_⟩
  show packetsIn (l.inbox ++ _) ++ _ = packetsIn l.inbox ++ _ ++ _
  rw [packetsIn_append, List.append_assoc, List.append_assoc]
  exact congrArg _ hs

variable (r) in
/-- Between two links the device took some packets, and it may have given answers. -/
def Takes (part : List Packet) (l l' : Link δ) : Prop :=
  (∃ given news, r.Delivers given news l l') ∧ r.hearing l'.device = (r.hearing l.device).hearAll part

/-- The packets written of a message are taken. -/
theorem takes_writePackets {config : Config} {total written elapsed : Nat} {packets : List Packet}
    {result : Except SecurityKey.Link.Error Unit}
    (h : Link.writePackets r.device config total written elapsed packets l = (result, l')) :
    ∃ part, part <+: packets ∧ r.Takes part l l' ∧ (result = .ok () ↔ part = packets) := by
  refine Link.writePackets_parts (fun l => ?_) (fun p l e he => ?_) (fun p part l l' he h => ?_) packets h
  · exact ⟨⟨[], [], .nil rfl rfl⟩, rfl⟩
  · refine ⟨delivers_give p l, ?_⟩
    simp [Link.give, r.hears, he, Except.isOk, Except.toBool, Hearing.hearAll]
  · obtain ⟨⟨_, _, hd⟩, hh⟩ := h
    obtain ⟨_, _, hp⟩ := delivers_give (r := r) p l
    refine ⟨⟨_, _, hp.append hd⟩, ?_⟩
    rw [hh]
    simp [Link.give, r.hears, he, Except.isOk, Except.toBool, Hearing.hearAll]

/-- A message that is sent is heard when all of it is written, and nothing is heard otherwise. -/
theorem delivers_send {config : Config} {m : Message} {result : Except SecurityKey.Link.Error Unit}
    (h : Link.send r.device config m l = (result, l')) :
    (∃ given news, r.Delivers given news l l') ∧ r.heard l' = r.heard l ++ if result.isOk then [m] else [] := by
  rw [Link.run_send] at h
  split at h
  · obtain ⟨rfl, rfl⟩ := Prod.mk.inj h
    exact ⟨⟨[], [], .nil rfl rfl⟩, by simp [Except.isOk, Except.toBool]⟩
  · rename_i packets hm
    obtain ⟨part, hp, ⟨hd, hh⟩, hr⟩ := takes_writePackets h
    refine ⟨hd, ?_⟩
    have hheard := (r.hearing l.device).hearAll_toPackets hm
    rw [Respondent.heard, hh]
    match result with
    | .ok () =>
      rw [hr.mp rfl, hheard.1]
      rfl
    | .error e =>
      rw [hheard.2 part hp fun he => by cases hr.mpr he]
      simp [Except.isOk, Except.toBool, Respondent.heard]

/-! ## Runs -/

variable (r) in
/-- Messages spell what is still to be read, and their answers are the last of the replies. -/
def InStep (l : Link δ) : Prop :=
  ∃ ms, Spells (r.stream l) ms ∧ ms.filter Message.isAnswer <:+ (r.replies l.device).map Reply.answer

theorem InStep.delivers (h : r.InStep l) (hd : r.Delivers given news l l') : r.InStep l' := by
  obtain ⟨ms, hs, front, hf⟩ := h
  refine ⟨ms ++ news, ?_, front, ?_⟩
  · rw [hd.stream]
    exact hs.append hd.fits
  · rw [hd.replies, List.filter_append, hd.answers, List.map_append, ← hf, List.append_assoc]

/-- Whatever is read, the rest remains in step. -/
theorem InStep.reads (h : r.InStep l) (hd : l'.device = l.device) (hi : l'.inbox <:+ l.inbox) : r.InStep l' := by
  obtain ⟨ms, hs, hf⟩ := h
  obtain ⟨front, hfront⟩ := packetsIn_suffix hi
  have hrest : r.stream l' <:+ r.stream l := by
    refine ⟨front, ?_⟩
    rw [Respondent.stream, Respondent.stream, ← hfront, List.append_assoc, hd]
  obtain ⟨after, ⟨before, rfl⟩, ha⟩ := hs.of_suffix hrest
  refine ⟨after, ha, ?_⟩
  rw [hd]
  rw [List.filter_append] at hf
  exact (List.suffix_append ..).trans hf

variable (r) in
/-- One link comes from another: it remains in step, and all that was heard in between are messages of a kind. -/
structure Reaches (sent : Message → Prop) (l l' : Link δ) : Prop where
  inStep : r.InStep l → r.InStep l'
  heard : ∃ news, r.heard l' = r.heard l ++ news ∧ ∀ m ∈ news, sent m

variable {sent sent' : Message → Prop}

theorem Reaches.mono (h : r.Reaches sent l l') (hs : ∀ m, sent m → sent' m) : r.Reaches sent' l l' := by
  obtain ⟨news, hn, hm⟩ := h.heard
  exact ⟨h.inStep, news, hn, fun m hx => hs m (hm m hx)⟩

theorem Reaches.trans (h : r.Reaches sent l l') (h' : r.Reaches sent l' l'') : r.Reaches sent l l'' := by
  obtain ⟨news, hn, hm⟩ := h.heard
  obtain ⟨news', hn', hm'⟩ := h'.heard
  refine ⟨h'.inStep ∘ h.inStep, news ++ news', by rw [hn', hn, List.append_assoc], fun m hx => ?_⟩
  rcases List.mem_append.mp hx with hx | hx
  · exact hm m hx
  · exact hm' m hx

/-- Nothing is heard while the host reads. -/
theorem Reaches.reads (hd : l'.device = l.device) (hi : l'.inbox <:+ l.inbox) : r.Reaches sent l l' :=
  ⟨fun h => h.reads hd hi, [], by simp [Respondent.heard, hd], by simp⟩

variable (config : Config)

theorem reaches_send (m : Message) (l : Link δ) : r.Reaches (· = m) l (Link.send r.device config m l).2 := by
  rcases h : Link.send r.device config m l with ⟨result, t⟩
  obtain ⟨⟨given, news, hd⟩, hh⟩ := delivers_send h
  refine ⟨fun h => h.delivers hd, _, hh, fun x hx => ?_⟩
  split at hx
  · exact List.mem_singleton.mp hx
  · cases hx

/-- A handshake sends its own message. -/
theorem reaches_handshake (l : Link δ) :
    r.Reaches (·.command = .init) l (Link.handshake r.device config l).2 := by
  have hs := reaches_send (r := r) config ⟨broadcastChannel, .init, (config.nonce l.handshakes).val⟩
    { l with channel := .closed, handshakes := l.handshakes + 1 }
  have hinit : ∀ m : Message, m = ⟨broadcastChannel, .init, (config.nonce l.handshakes).val⟩ → m.command = .init := by
    rintro m rfl
    rfl
  have hbegin : r.Reaches (·.command = .init) l { l with channel := .closed, handshakes := l.handshakes + 1 } :=
    .reads rfl List.suffix_rfl
  have hs := hbegin.trans (hs.mono hinit)
  rw [Link.run_handshake]
  simp only
  split
  · rename_i e t ht
    rw [ht] at hs
    exact hs
  · rename_i t ht
    rw [ht] at hs
    have hr := Link.readAllocation_suffix (config.nonce l.handshakes) config.initTimeout (.idle broadcastChannel)
      t.inbox
    split
    · rename_i e inbox hi
      rw [hi] at hr
      exact hs.trans (.reads rfl hr)
    · rename_i a inbox hi
      rw [hi] at hr
      exact hs.trans (.reads rfl hr)

/-- An exchange sends its message. -/
theorem reaches_exchange (channel : UInt32) (command : Command) (payload : Bytes) (l : Link δ) :
    r.Reaches (· = ⟨channel, command, payload⟩) l (Link.exchange r.device config channel command payload l).2 := by
  have hs := reaches_send (r := r) config ⟨channel, command, payload⟩ l
  rw [Link.run_exchange]
  split
  · rename_i e t ht
    rw [ht] at hs
    exact hs
  · rename_i t ht
    rw [ht] at hs
    exact hs.trans (.reads rfl (Link.readAnswer_suffix ..))

/-- The channel to use costs a handshake at most. -/
theorem reaches_ensureChannel (l : Link δ) :
    r.Reaches (·.command = .init) l (Link.ensureChannel r.device config l).2 := by
  have hh := reaches_handshake (r := r) config l
  rw [Link.run_ensureChannel]
  split
  · exact .reads rfl List.suffix_rfl
  · split
    · rename_i e t ht
      rw [ht] at hh
      exact hh
    · rename_i a t ht
      rw [ht] at hh
      exact hh
  · exact .reads rfl List.suffix_rfl

/-- An attempt sends its message, on whatever channel, and a handshake at most. -/
theorem reaches_attempt (command : Command) (payload : Bytes) (l : Link δ) :
    r.Reaches (fun m => m.command = .init ∨ m.command = command ∧ m.data = payload) l
      (Link.attempt r.device config command payload l).2 := by
  have hc := reaches_ensureChannel (r := r) config l
  rw [Link.run_attempt]
  split
  · rename_i e t ht
    rw [ht] at hc
    exact hc.mono fun _ => .inl
  · rename_i channel t ht
    rw [ht] at hc
    refine (hc.mono fun _ => .inl).trans ((reaches_exchange config channel command payload t).mono ?_)
    rintro m rfl
    exact .inr ⟨rfl, rfl⟩

/-- So do all attempts. -/
theorem reaches_transactWith (command : Command) (payload : Bytes) (retries : Nat) :
    ∀ l : Link δ, r.Reaches (fun m => m.command = .init ∨ m.command = command ∧ m.data = payload) l
      (Link.transactWith r.device config command payload retries l).2 := by
  have hone : ∀ {again : Action (Link δ) SecurityKey.Link.Error Bytes} (l : Link δ),
      (∀ l, r.Reaches (fun m => m.command = .init ∨ m.command = command ∧ m.data = payload) l (again l).2) →
      r.Reaches (fun m => m.command = .init ∨ m.command = command ∧ m.data = payload) l
        (Link.attemptOr r.device config again command payload l).2 := by
    intro again l hagain
    have ha := reaches_attempt (r := r) config command payload l
    rw [Link.run_attemptOr]
    split
    · rename_i data t ht
      rw [ht] at ha
      exact ha
    · rename_i e t ht
      rw [ht] at ha
      split
      · exact ha.trans (hagain t)
      · exact ha.trans (.reads (Link.device_afterError e t) (by simp))
  induction retries with
  | zero => exact fun l => hone l fun _ => .reads rfl List.suffix_rfl
  | succ retries ih => exact fun l => hone l ih

/-- Every call keeps the link in step. -/
theorem inStep_after (calls : List Call) : r.InStep (r.after config calls) := by
  have hstart : r.InStep (Link.new r.start) := by
    refine ⟨[], ?_, List.nil_suffix⟩
    rw [Respondent.stream, Link.new, r.owed_start]
    exact .nil
  have hall : ∀ (calls : List Call) (l : Link δ), r.InStep l → r.InStep (calls.foldl (r.call config) l) := by
    intro calls
    induction calls with
    | nil => exact fun _ h => h
    | cons call calls ih =>
      intro l h
      refine ih _ ?_
      cases call with
      | handshake => exact (reaches_handshake config l).inStep h
      | transact command payload => exact (reaches_transactWith config command payload _ l).inStep h
      | release => exact h.reads rfl List.suffix_rfl
  exact hall calls _ hstart

end Respondent

end SecurityKey.Hid
