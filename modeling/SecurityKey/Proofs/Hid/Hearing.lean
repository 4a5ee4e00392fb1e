import SecurityKey.Proofs.Hid.Reassembly

/-!
# What a device hears

A device puts the packets it takes together, whatever it does with the messages. An initialization packet begins a new
message on its channel, as the simulated device has it.

- `hearPacket`: the message that a packet completes, if it completes one;
- `Hearing.messages`: the whole messages among the packets heard so far;
- the packets of a message are heard as that message, and a part of them as nothing (`hearAll_toPackets`).
-/

namespace SecurityKey.Hid

/-- Who listens to a packet: an initialization packet begins a new message. -/
def listenerTo (listener : Option Reassembler) (p : Packet) : Option Reassembler :=
  if p.isInitial then some (.idle p.channel) else listener

/-- The message that a packet completes, if it completes one, and the listener to the next packet. -/
def hearPacket (listener : Option Reassembler) (p : Packet) : Option Message × Option Reassembler :=
  match (listenerTo listener p).map fun r => Reassembler.feed r p with
  | some (.ok m, r) => (m, some r)
  | some (.error _, r) => (none, some r)
  | none => (none, none)

/-- What was heard of packets. -/
structure Hearing where
  /-- The listener to the message under way. -/
  listener : Option Reassembler
  messages : List Message

namespace Hearing

/-- Before the first packet. -/
def silence : Hearing := ⟨none, []⟩

/-- One more packet. -/
def hear (h : Hearing) (p : Packet) : Hearing :=
  ⟨(hearPacket h.listener p).2, h.messages ++ (hearPacket h.listener p).1.toList⟩

/-- More packets, in order. -/
def hearAll (h : Hearing) (packets : List Packet) : Hearing := packets.foldl hear h

variable {m : Message} {h : Hearing} {r r' : Reassembler} {p : Packet} {packets : List Packet}

theorem hearAll_append (h : Hearing) (front back : List Packet) :
    h.hearAll (front ++ back) = (h.hearAll front).hearAll back := List.foldl_append

/-- A packet that its listener takes. -/
theorem hear_of_feed {whole : Option Message} (hl : listenerTo h.listener p = some r)
    (hf : r.feed p = (.ok whole, r')) : h.hear p = ⟨some r', h.messages ++ whole.toList⟩ := by
  simp [hear, hearPacket, hl, hf]

/-- Packets that complete a message, with no initialization packet behind the first, are heard as that message, and
not before the last of them. -/
theorem hearAll_completes (hc : r.Completes m packets) :
    ∀ {h : Hearing}, (∀ p ∈ packets.head?, listenerTo h.listener p = some r) →
      (∀ p ∈ packets.tail, p.isInitial = false) →
      h.hearAll packets = ⟨some (.idle m.channel), h.messages ++ [m]⟩ ∧
        ∀ part, part <+: packets → part ≠ packets → (h.hearAll part).messages = h.messages := by
  induction hc with
  | @last r p hf =>
    intro h hl _
    refine ⟨hear_of_feed (hl p rfl) hf, fun part hp hne => ?_⟩
    rcases List.prefix_cons_iff.mp hp with rfl | ⟨t, rfl, ht⟩
    · rfl
    · rw [List.prefix_nil.mp ht] at hne
      exact absurd rfl hne
  | @more r r' p rest hf hc ih =>
    intro h hl hi
    have hp : h.hear p = ⟨some r', h.messages⟩ := by
      rw [hear_of_feed (hl p rfl) hf, Option.toList_none, List.append_nil]
    have ih := ih (h := h.hear p)
      (fun q hq => by simp [listenerTo, hi q (List.mem_of_mem_head? hq), hp])
      fun q hq => hi q (List.mem_of_mem_tail hq)
    rw [hp] at ih
    refine ⟨?_, fun part hpart hne => ?_⟩
    · show (h.hear p).hearAll rest = _
      rw [hp]
      exact ih.1
    · rcases List.prefix_cons_iff.mp hpart with rfl | ⟨t, rfl, ht⟩
      · rfl
      · show ((h.hear p).hearAll t).messages = _
        rw [hp]
        exact ih.2 t ht fun he => hne (by rw [he])

/-- The packets of a message are heard as that message, and a part of them as nothing. -/
theorem hearAll_toPackets (h : Hearing) (hm : m.toPackets = .ok packets) :
    h.hearAll packets = ⟨some (.idle m.channel), h.messages ++ [m]⟩ ∧
      ∀ part, part <+: packets → part ≠ packets → (h.hearAll part).messages = h.messages := by
  obtain ⟨p, rest, rfl, hp, hpc, hi⟩ := m.toPackets_cases hm
  refine hearAll_completes (completes_toPackets hm) (fun q hq => ?_) fun q hq => (hi q hq).1
  obtain rfl := Option.some.inj hq
  simp [listenerTo, hp, hpc]

end Hearing

end SecurityKey.Hid
