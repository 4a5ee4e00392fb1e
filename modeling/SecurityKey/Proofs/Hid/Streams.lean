import SecurityKey.Hid.Link
import SecurityKey.Proofs.Hid.Hearing

/-!
# Streams of packets

What a device lets the host read is a stream of packets. It is spelled by messages, but for packets at its front that
are left of a message whose beginning was read before.

- `packetsIn`: the packets among events;
- `Spells stream ms`: the packets of the messages, behind some continuation packets;
- the messages are found again by listening to the stream (`messagesIn_of_spells`), a message added behind adds its
  packets (`Spells.append`), and the rest of a stream is spelled by the last of the messages (`Spells.of_suffix`).
-/

namespace SecurityKey.Hid

/-! ## Messages as packets -/

/-- The packets among events. -/
def packetsIn : List Event → List Packet
  | [] => []
  | .packet p :: rest => p :: packetsIn rest
  | .quiet _ :: rest => packetsIn rest
  | .failure _ :: rest => packetsIn rest

theorem packetsIn_append (front back : List Event) : packetsIn (front ++ back) = packetsIn front ++ packetsIn back := by
  induction front with
  | nil => rfl
  | cons e rest ih => cases e <;> simp [packetsIn, ih]

theorem packetsIn_map (packets : List Packet) : packetsIn (packets.map .packet) = packets := by
  induction packets with
  | nil => rfl
  | cons p rest ih => rw [List.map_cons, packetsIn, ih]

/-- The rest of the events has the rest of the packets. -/
theorem packetsIn_suffix {rest events : List Event} (h : rest <:+ events) : packetsIn rest <:+ packetsIn events := by
  obtain ⟨front, rfl⟩ := h
  rw [packetsIn_append]
  exact List.suffix_append ..

namespace Message

/-- Whether packets can carry a message. -/
def Fits (m : Message) : Prop := m.data.length ≤ maxMessageSize

/-- The packets of a message, none where it does not fit. -/
def packets (m : Message) : List Packet :=
  match m.toPackets with
  | .ok packets => packets
  | .error _ => []

theorem toPackets_of_fits {m : Message} (h : m.Fits) : m.toPackets = .ok m.packets := by
  obtain ⟨ps, hp⟩ := exists_toPackets m.channel m.command h
  have hp : m.toPackets = .ok ps := hp
  simp only [packets, hp]

end Message

/-- The packets of messages, one message after the other. -/
def wire (ms : List Message) : List Packet := ms.flatMap Message.packets

theorem wire_append (front back : List Message) : wire (front ++ back) = wire front ++ wire back := by
  simp [wire]

/-! ## Spelling -/

/-- A stream consists of the packets of some messages, behind continuation packets of a message whose beginning is
missing. -/
structure Spells (stream : List Packet) (ms : List Message) : Prop where
  fits : ∀ m ∈ ms, m.Fits
  /-- The packets of the messages come last. -/
  ends : ∃ broken : List Packet, (∀ p ∈ broken, p.isInitial = false) ∧ stream = broken ++ wire ms

namespace Spells

variable {stream rest : List Packet} {ms news : List Message} {p : Packet}

theorem nil : Spells [] [] := ⟨by simp, [], by simp, rfl⟩

/-- Messages added behind. -/
theorem append (h : Spells stream ms) (hn : ∀ m ∈ news, m.Fits) : Spells (stream ++ wire news) (ms ++ news) := by
  obtain ⟨broken, hb, rfl⟩ := h.ends
  refine ⟨fun m hm => ?_, broken, hb, by rw [wire_append, List.append_assoc]⟩
  rcases List.mem_append.mp hm with hm | hm
  · exact h.fits m hm
  · exact hn m hm

/-- The first packet is left of a broken message, or it begins the first message. -/
theorem cons_cases (h : Spells (p :: rest) ms) :
    (p.isInitial = false ∧ Spells rest ms) ∨
      ∃ m after later, ms = m :: after ∧ m.packets = p :: later ∧ p.channel = m.channel ∧
        (∀ q ∈ later, q.isInitial = false ∧ q.channel = m.channel) ∧ rest = later ++ wire after ∧
        Spells rest after := by
  obtain ⟨broken, hb, he⟩ := h.ends
  cases broken with
  | cons q broken =>
    obtain ⟨rfl, rfl⟩ := List.cons.inj he
    exact .inl ⟨hb p (List.mem_cons_self ..), h.fits, broken, fun x hx => hb x (List.mem_cons_of_mem _ hx), rfl⟩
  | nil =>
    cases ms with
    | nil => cases he
    | cons m after =>
      have hm := Message.toPackets_of_fits (h.fits m (List.mem_cons_self ..))
      obtain ⟨q, later, hq, -, hc, hl⟩ := m.toPackets_cases hm
      have he : p :: rest = m.packets ++ wire after := he
      rw [hq] at he
      obtain ⟨rfl, rfl⟩ := List.cons.inj he
      exact .inr ⟨m, after, later, rfl, hq, hc, hl, rfl, fun x hx => h.fits x (List.mem_cons_of_mem _ hx), later,
        fun q hq => (hl q hq).1, rfl⟩

/-- The rest of a stream is spelled by the last of the messages. -/
theorem of_suffix (h : Spells stream ms) (hr : rest <:+ stream) : ∃ after, after <:+ ms ∧ Spells rest after := by
  obtain ⟨front, rfl⟩ := hr
  induction front generalizing ms with
  | nil => exact ⟨ms, List.suffix_rfl, h⟩
  | cons p front ih =>
    rcases h.cons_cases with ⟨-, h⟩ | ⟨m, after, later, rfl, -, -, -, -, h⟩
    · exact ih h
    · obtain ⟨last, hs, hl⟩ := ih h
      exact ⟨last, hs.trans (List.suffix_cons ..), hl⟩

end Spells

/-! ## Listening to a stream -/

/-- The whole messages in a stream. -/
def messagesIn (stream : List Packet) : List Message := (Hearing.silence.hearAll stream).messages

/-- Messages are heard in the order of their packets. -/
theorem hearAll_wire {ms : List Message} (hf : ∀ m ∈ ms, m.Fits) :
    ∀ h : Hearing, (h.hearAll (wire ms)).messages = h.messages ++ ms := by
  induction ms with
  | nil => exact fun h => (List.append_nil _).symm
  | cons m after ih =>
    intro h
    have hm := Message.toPackets_of_fits (hf m (List.mem_cons_self ..))
    show (h.hearAll (m.packets ++ wire after)).messages = _
    rw [Hearing.hearAll_append, (h.hearAll_toPackets hm).1, ih fun x hx => hf x (List.mem_cons_of_mem _ hx),
      List.append_assoc]
    rfl

/-- Nothing is heard of a message whose beginning is missing. -/
theorem hearAll_broken {broken : List Packet} (hb : ∀ p ∈ broken, p.isInitial = false) :
    Hearing.silence.hearAll broken = Hearing.silence := by
  induction broken with
  | nil => rfl
  | cons p broken ih =>
    have hp : Hearing.silence.hear p = Hearing.silence := by
      simp [Hearing.hear, Hearing.silence, hearPacket, listenerTo, hb p (List.mem_cons_self ..)]
    show (Hearing.silence.hear p).hearAll broken = _
    rw [hp]
    exact ih fun q hq => hb q (List.mem_cons_of_mem _ hq)

/-- Whoever listens to a stream hears the messages that spell it. -/
theorem messagesIn_of_spells {stream : List Packet} {ms : List Message} (h : Spells stream ms) :
    messagesIn stream = ms := by
  obtain ⟨broken, hb, rfl⟩ := h.ends
  rw [messagesIn, Hearing.hearAll_append, hearAll_broken hb, hearAll_wire h.fits]
  rfl

end SecurityKey.Hid
