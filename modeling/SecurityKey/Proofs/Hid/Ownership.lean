import SecurityKey.Proofs.Hid.Gathering
import SecurityKey.Proofs.Hid.Reading
import SecurityKey.Proofs.Hid.Retries

/-!
# Whose channel it is

A channel belongs to whoever it was allocated to, and messages on somebody else's channel disturb other applications.
So the host writes on the channel of its last handshake only, and on none after it has released that one or has failed
to get another.

- `watching device` is a device together with all the packets that the host handed to it;
- `Link.history` tells what the host does in a sequence of calls: handshakes, messages and releases, each with the
  packets handed over for it;
- `Act.Lawful` says what the host may do after what it has done before: messages need a channel in force, and a
  handshake brings the channel that the device answered it with;
- every call keeps that (`Kept.handshake`, `Kept.transact`, `Kept.cancel`, `Kept.release`), and so does every sequence
  of calls (`Link.channel_owned`).
-/

namespace SecurityKey.Hid

/-! ## Devices that are watched -/

/-- A device and the packets that the host handed to it, whatever became of them. -/
structure Watched (δ : Type) where
  device : δ
  handed : List Packet

/-- The device together with a record of the packets handed to it. -/
def watching {δ : Type} (device : Device δ) : Device (Watched δ) := fun p w =>
  let r := device p w.device
  { result := r.result
    elapsed := r.elapsed
    events := r.events
    device := { device := r.device, handed := w.handed ++ [p] } }

/-! ## What the host does -/

/-- What the host does on a link. -/
inductive Act
  /-- A handshake with a nonce: the packets handed over for its message, what was read after them, and what came of
  it. -/
  | handshake (nonce : Bytes.Sized 8) (handed : List Packet) (read : List Event)
      (result : Except SecurityKey.Link.Error Allocation)
  /-- The packets handed over for the message of a call, as often as it was tried. -/
  | messages (handed : List Packet)
  | release

namespace Act

/-- The packets handed over. -/
def handed : Act → List Packet
  | handshake _ handed _ _ => handed
  | messages handed => handed
  | release => []

/-- Whether the channel of the host remains what it was. -/
def KeepsChannel (x : Act) : Prop := ∃ handed, x = messages handed

end Act

/-- An allocation is in force after some acts: the last handshake brought it, and nothing was released since. -/
def InForce (a : Allocation) (acts : List Act) : Prop :=
  ∃ before nonce handed read later, acts = before ++ .handshake nonce handed read (.ok a) :: later ∧
    ∀ x ∈ later, x.KeepsChannel

/-- An allocation was read: the last packets are those of an answer to a handshake on the broadcast channel, with the
nonce in it. -/
structure Answered (nonce : Bytes.Sized 8) (read : List Event) (a : Allocation) : Prop where
  told : ∃ (m : Message) (packets : List Packet), packets <:+ packetsIn read ∧ Reassembler.MakesUp m packets ∧
    m.channel = broadcastChannel ∧ m.command = .init ∧ Allocation.parse nonce m.data = .ok a
  nonce : a.nonce = nonce

/-- The message that asks for a channel. -/
def initMessage (nonce : Bytes.Sized 8) : Message := ⟨broadcastChannel, .init, nonce.val⟩

/-- What the host may do after what it has done before. -/
inductive Act.Lawful (before : List Act) : Act → Prop
  /-- The packets of a handshake are those of its message; an allocation comes from the answer to the whole of it. -/
  | handshake {nonce : Bytes.Sized 8} {handed : List Packet} {read : List Event}
      {result : Except SecurityKey.Link.Error Allocation} (part : handed <+: (initMessage nonce).packets)
      (answered : ∀ a, result = .ok a → handed = (initMessage nonce).packets ∧ Answered nonce read a) :
      Lawful before (.handshake nonce handed read result)
  /-- The packets of messages are on the channel in force. -/
  | messages {handed : List Packet} (own : ∀ p ∈ handed, ∃ a, InForce a before ∧ p.channel = a.channel) :
      Lawful before (.messages handed)
  | release : Lawful before .release

/-- Every act is lawful after those before it. -/
def Owned (acts : List Act) : Prop := ∀ before x later, acts = before ++ x :: later → x.Lawful before

section Acts

variable {acts : List Act} {a : Allocation}

theorem InForce.of_handshake (nonce : Bytes.Sized 8) (handed : List Packet) (read : List Event) :
    InForce a (acts ++ [.handshake nonce handed read (.ok a)]) :=
  ⟨acts, nonce, handed, read, [], rfl, List.forall_mem_nil _⟩

/-- Messages leave the channel in force. -/
theorem InForce.messages (h : InForce a acts) (handed : List Packet) : InForce a (acts ++ [.messages handed]) := by
  obtain ⟨before, nonce, packets, read, later, rfl, hlater⟩ := h
  refine ⟨before, nonce, packets, read, later ++ [.messages handed], by simp, ?_⟩
  exact List.forall_mem_append.mpr ⟨hlater, List.forall_mem_singleton.mpr ⟨handed, rfl⟩⟩

theorem Owned.nil : Owned [] := by
  intro before x later h
  cases before <;> cases h

/-- One more lawful act. -/
theorem Owned.append {x : Act} (h : Owned acts) (hx : x.Lawful acts) : Owned (acts ++ [x]) := by
  intro before y later heq
  -- either `y` is the new act, or it stands among those before
  rcases List.eq_nil_or_concat later with rfl | ⟨later, z, rfl⟩
  · obtain ⟨rfl, hxy⟩ := List.append_inj' heq rfl
    obtain rfl := List.singleton_inj.mp hxy
    exact hx
  · rw [List.concat_eq_append, ← List.cons_append, ← List.append_assoc] at heq
    obtain ⟨rfl, -⟩ := List.append_inj' heq rfl
    exact h before y later rfl

/-- The allocation in force was answered to the whole message of the last handshake. -/
theorem InForce.answered (h : InForce a acts) (ho : Owned acts) :
    ∃ before nonce read later, acts = before ++ .handshake nonce (initMessage nonce).packets read (.ok a) :: later ∧
      (∀ x ∈ later, x.KeepsChannel) ∧ Answered nonce read a := by
  obtain ⟨before, nonce, handed, read, later, rfl, hlater⟩ := h
  cases ho before _ later rfl with
  | handshake part answered =>
    obtain ⟨rfl, ha⟩ := answered a rfl
    exact ⟨before, nonce, read, later, rfl, hlater, ha⟩

end Acts

/-! ## What is read in a handshake -/

open Reassembler in
/-- An allocation that is read comes from a message of the channel that answers a handshake. What the listener has
taken of that message is the beginning of its packets. -/
theorem answer_of_readAllocation {channel : UInt32} {nonce : Bytes.Sized 8} {a : Allocation} {unread : List Event}
    (events : List Event) :
    ∀ {remaining : Nat} {pending : Option Partial} {taken : List Packet}, Holds channel pending taken →
      Link.readAllocation nonce remaining ⟨channel, pending⟩ events = (.ok a, unread) →
      ∃ (read : List Event) (m : Message) (packets : List Packet), events = read ++ unread ∧
        packets <:+ taken ++ packetsIn read ∧ MakesUp m packets ∧ m.channel = channel ∧ m.command = .init ∧
        Allocation.parse nonce m.data = .ok a := by
  induction events with
  | nil =>
    intro remaining pending taken _ h
    rw [Link.readAllocation] at h
    cases h
  | cons event rest ih =>
    intro remaining pending taken hh h
    cases remaining with
    | zero => cases h
    | succ remaining =>
      cases event with
      | quiet d =>
        simp only [Link.readAllocation] at h
        obtain ⟨read, m, packets, rfl, hs, hm⟩ := ih hh h
        exact ⟨.quiet d :: read, m, packets, rfl, hs, hm⟩
      | failure e => cases h
      | packet p =>
        have he := holds_feed hh p
        -- once the listener is idle again, the packets of the answer are among those still to be read
        have hidle : Link.readAllocation nonce (remaining + 1) (.idle channel) rest = (.ok a, unread) →
            ∃ (read : List Event) (m : Message) (packets : List Packet), .packet p :: rest = read ++ unread ∧
              packets <:+ taken ++ packetsIn read ∧ MakesUp m packets ∧ m.channel = channel ∧ m.command = .init ∧
              Allocation.parse nonce m.data = .ok a := by
          intro h
          obtain ⟨read, m, packets, rfl, hs, hm⟩ := ih .nothing h
          refine ⟨.packet p :: read, m, packets, rfl, hs.trans ?_, hm⟩
          exact (List.suffix_cons p _).trans (List.suffix_append taken _)
        simp only [Link.readAllocation] at h
        generalize Reassembler.feed ⟨channel, pending⟩ p = fed at he h
        cases he with
        | passed foreign idle => exact hidle h
        | refused e => cases h
        | added holds =>
          obtain ⟨read, m, packets, rfl, hs, hm⟩ := ih holds h
          refine ⟨.packet p :: read, m, packets, rfl, ?_, hm⟩
          rwa [List.append_assoc] at hs
        | @completed m own whole =>
          simp only at h
          split at h
          · rename_i hinit
            obtain ⟨hp, rfl⟩ := Prod.mk.inj h
            exact ⟨[.packet p], m, taken ++ [p], rfl, List.suffix_rfl, whole, own, hinit, hp⟩
          · exact hidle h

/-- An allocation repeats the nonce that it was read with. -/
theorem Allocation.nonce_of_parse {nonce : Bytes.Sized 8} {data : Bytes} {a : Allocation}
    (h : Allocation.parse nonce data = .ok a) : a.nonce = nonce := by
  unfold Allocation.parse at h
  split at h
  · split at h
    · obtain rfl := Except.ok.inj h
      assumption
    · cases h
  · cases h

/-! ## What is handed over -/

/-- All packets of a message are on its channel. -/
theorem Message.channel_packets {m : Message} {p : Packet} (hp : p ∈ m.packets) : p.channel = m.channel := by
  unfold Message.packets at hp
  split at hp
  · rename_i packets hm
    obtain ⟨q, rest, rfl, -, hq, hrest⟩ := m.toPackets_cases hm
    rcases List.mem_cons.mp hp with rfl | hp
    · exact hq
    · exact (hrest p hp).2
  · cases hp

namespace Link

variable {δ : Type} {device : Device δ} {config : Config} {l l' l'' : Link (Watched δ)} {acts : List Act}
  {a : Allocation}

/-- The packets handed over between two links. -/
def handedBetween (l l' : Link (Watched δ)) : List Packet := l'.device.handed.drop l.device.handed.length

/-- Some packets were handed over, and nothing else. -/
def Hands (l l' : Link (Watched δ)) (part : List Packet) : Prop := l'.device.handed = l.device.handed ++ part

namespace Hands

variable {part part' : List Packet}

theorem refl (l : Link (Watched δ)) : Hands l l [] := (List.append_nil _).symm

theorem trans (h : Hands l l' part) (h' : Hands l' l'' part') : Hands l l'' (part ++ part') := by
  unfold Hands at *
  rw [h', h, List.append_assoc]

/-- What was handed over is known from the two links. -/
theorem handedBetween (h : Hands l l' part) : handedBetween l l' = part := by
  unfold Link.handedBetween
  rw [h, List.drop_left]

end Hands

/-- The packets of a message are handed over in order, all of them when it is sent. -/
theorem hands_writePackets {total : Nat} (packets : List Packet) :
    ∀ {written elapsed : Nat} {l : Link (Watched δ)} {result : Except SecurityKey.Link.Error Unit},
      writePackets (watching device) config total written elapsed packets l = (result, l') →
      ∃ part, Hands l l' part ∧ part <+: packets ∧ (result = .ok () → part = packets) := by
  induction packets with
  | nil =>
    intro written elapsed l result h
    obtain ⟨rfl, rfl⟩ := Prod.mk.inj h
    exact ⟨[], .refl l, List.prefix_rfl, fun _ => rfl⟩
  | cons p rest ih =>
    intro written elapsed l result h
    rw [run_writePackets_cons] at h
    split at h
    · obtain ⟨rfl, rfl⟩ := Prod.mk.inj h
      exact ⟨[], .refl l, List.nil_prefix, nofun⟩
    · simp only at h
      split at h
      · -- a packet that fails was handed over all the same
        obtain ⟨rfl, rfl⟩ := Prod.mk.inj h
        exact ⟨[p], rfl, (List.prefix_cons_inj p).mpr List.nil_prefix, nofun⟩
      · obtain ⟨part, hh, hp, hr⟩ := ih h
        refine ⟨p :: part, ?_, (List.prefix_cons_inj p).mpr hp, fun he => by rw [hr he]⟩
        have hgive : Hands l (l.give (watching device) p) [p] := rfl
        exact hgive.trans hh

/-- A message that is sent is handed over as far as its packets go. -/
theorem hands_send {m : Message} {result : Except SecurityKey.Link.Error Unit}
    (h : send (watching device) config m l = (result, l')) :
    ∃ part, Hands l l' part ∧ part <+: m.packets ∧ (result = .ok () → part = m.packets) := by
  rw [run_send] at h
  split at h
  · obtain ⟨rfl, rfl⟩ := Prod.mk.inj h
    exact ⟨[], .refl l, List.nil_prefix, nofun⟩
  · rename_i packets hm
    have hp : m.packets = packets := by simp only [Message.packets, hm]
    rw [hp]
    exact hands_writePackets packets h

/-- What a message on an open channel may do: all packets handed over are on that channel, and it stays open or gets
stale. -/
structure StaysOn (a : Allocation) (l l' : Link (Watched δ)) : Prop where
  handed : ∃ part, Hands l l' part ∧ ∀ p ∈ part, p.channel = a.channel
  channel : l'.channel = .allocated a ∨ l'.channel = .stale

namespace StaysOn

theorem refl (hc : l.channel = .allocated a) : StaysOn a l l := ⟨⟨[], .refl l, List.forall_mem_nil _⟩, .inl hc⟩

theorem trans (h : StaysOn a l l') (h' : StaysOn a l' l'') : StaysOn a l l'' := by
  obtain ⟨part, hh, hp⟩ := h.handed
  obtain ⟨part', hh', hp'⟩ := h'.handed
  exact ⟨⟨part ++ part', hh.trans hh', List.forall_mem_append.mpr ⟨hp, hp'⟩⟩, h'.channel⟩

end StaysOn

/-- A message on an open channel. -/
theorem staysOn_send {command : Command} {payload : Bytes} {result : Except SecurityKey.Link.Error Unit}
    (hc : l.channel = .allocated a)
    (h : send (watching device) config ⟨a.channel, command, payload⟩ l = (result, l')) : StaysOn a l l' := by
  obtain ⟨part, hh, hp, -⟩ := hands_send h
  refine ⟨⟨part, hh, fun p hm => Message.channel_packets (hp.subset hm)⟩, .inl ?_⟩
  rw [channel_send h, hc]

variable (device config) in
/-- One attempt on an open channel leaves it open. -/
theorem staysOn_attempt (command : Command) (payload : Bytes) (hc : l.channel = .allocated a) :
    StaysOn a l (attempt (watching device) config command payload l).2 ∧
      (attempt (watching device) config command payload l).2.channel = .allocated a := by
  rw [run_attempt_allocated _ _ hc]
  refine ⟨?_, by rw [channel_exchange, hc]⟩
  rw [run_exchange]
  rcases hs : send (watching device) config ⟨a.channel, command, payload⟩ l with ⟨e | x, t⟩
  · exact staysOn_send hc hs
  · obtain ⟨hh, hch⟩ := staysOn_send hc hs
    exact ⟨hh, hch⟩

/-- An error leaves an open channel open or makes it stale. -/
theorem staysOn_afterError (e : SecurityKey.Link.Error) (hc : l.channel = .allocated a) :
    StaysOn a l (afterError e l) := by
  refine ⟨⟨[], ?_, List.forall_mem_nil _⟩, ?_⟩
  · unfold Hands
    rw [device_afterError, List.append_nil]
  · unfold afterError
    rw [hc]
    simp only
    split
    · exact .inr rfl
    · exact .inl hc

/-- All attempts on an open channel. -/
theorem staysOn_transactWith (command : Command) (payload : Bytes) (retries : Nat) :
    ∀ {l : Link (Watched δ)}, l.channel = .allocated a →
      StaysOn a l (transactWith (watching device) config command payload retries l).2 := by
  -- what comes after an attempt that is tried again does not matter as long as it stays on the channel
  have hattempt : ∀ {again : Action (Link (Watched δ)) SecurityKey.Link.Error Bytes},
      (∀ {t : Link (Watched δ)}, t.channel = .allocated a → StaysOn a t (again t).2) →
      ∀ {l : Link (Watched δ)}, l.channel = .allocated a →
        StaysOn a l (attemptOr (watching device) config again command payload l).2 := by
    intro again hagain l hc
    obtain ⟨hs, hopen⟩ := staysOn_attempt device config command payload hc
    rw [run_attemptOr]
    rcases hr : attempt (watching device) config command payload l with ⟨e | data, t⟩
    · rw [hr] at hs hopen
      simp only
      split
      · exact hs.trans (hagain hopen)
      · exact hs.trans (staysOn_afterError e hopen)
    · rw [hr] at hs
      exact hs
  induction retries with
  | zero => exact hattempt .refl
  | succ retries ih => exact hattempt ih

/-- A message goes the way it goes on the channel that it finds or is given. -/
theorem transact_ensured (command : Command) (payload : Bytes) (l : Link (Watched δ)) :
    (transact (watching device) config command payload l).2 =
      (transact (watching device) config command payload (ensureChannel (watching device) config l).2).2 := by
  rw [run_ensureChannel]
  cases hc : l.channel with
  | closed => rfl
  | allocated a => rfl
  | stale =>
    rcases hh : handshake (watching device) config l with ⟨e | a, t⟩
    · obtain ⟨-, hattempt, hclosed⟩ := freshAttempt_of_error command payload hc hh
      have hafter : afterError e t = t := by
        unfold afterError
        rw [hclosed]
      have hrest : ∀ n, transactWith (watching device) config command payload n t = (.error .notConnected, t) :=
        transactWith_closed hclosed command payload
      show _ = (transactWith (watching device) config command payload _ t).2
      rw [hrest, transact]
      cases config.maxAttempts - 1 with
      | zero =>
        rw [transactWith, run_attemptOr, hattempt]
        simp only
        split
        · rfl
        · exact hafter
      | succ n =>
        rw [transactWith, run_attemptOr, hattempt]
        simp only
        split
        · rw [hrest]
        · exact hafter
    · obtain ⟨-, hattempt, -⟩ := freshAttempt_stale command payload hc hh
      rw [transact_congr hattempt]

/-! ## Calls -/

/-- What the user of a link calls. -/
inductive Call
  | handshake
  | transact (command : Command) (payload : Bytes)
  | cancel
  | release

section Calls

variable (device : Device δ) (config : Config)

/-- The link after a call. -/
def call (l : Link δ) : Call → Link δ
  | .handshake => (handshake device config l).2
  | .transact command payload => (transact device config command payload l).2
  | .cancel => (cancel device config l).2
  | .release => l.release

/-- The link on which a handshake begins to read, with its message sent. -/
def greeted (l : Link δ) : Link δ :=
  (send device config (initMessage (config.nonce l.handshakes))
    { l with channel := .closed, handshakes := l.handshakes + 1 }).2

/-- The events that were read when nothing was written in between. -/
def readBetween (l l' : Link δ) : List Event := l.inbox.take (l.inbox.length - l'.inbox.length)

/-- What the host does in a handshake. -/
def handshakeAct (l : Link (Watched δ)) : Act :=
  .handshake (config.nonce l.handshakes) (handedBetween l (handshake (watching device) config l).2)
    (readBetween (greeted (watching device) config l) (handshake (watching device) config l).2)
    (handshake (watching device) config l).1

/-- What the host does in a call. A message on a stale channel begins with a handshake. -/
def actsOf (l : Link (Watched δ)) : Call → List Act
  | .handshake => [handshakeAct device config l]
  | .transact command payload =>
    (if l.channel = .stale then [handshakeAct device config l] else []) ++
      [.messages (handedBetween (ensureChannel (watching device) config l).2
        (transact (watching device) config command payload l).2)]
  | .cancel => [.messages (handedBetween l (cancel (watching device) config l).2)]
  | .release => [.release]

/-- The link after several calls. -/
def after (l : Link δ) (calls : List Call) : Link δ := calls.foldl (call device config) l

/-- What the host does in several calls. -/
def history (l : Link (Watched δ)) : List Call → List Act
  | [] => []
  | c :: calls => actsOf device config l c ++ history (call (watching device) config l c) calls

end Calls

/-! ## One call -/

/-- The host owns the channel that it speaks on: all it has done so far was lawful, that is all it has handed over, and
an open channel is the one in force. -/
structure Kept (acts : List Act) (l : Link (Watched δ)) : Prop where
  owned : Owned acts
  handed : acts.flatMap Act.handed = l.device.handed
  inForce : ∀ a, l.channel = .allocated a → InForce a acts

variable (device config) in
/-- The message of a handshake and what is read after it. -/
theorem handshake_answered (l : Link (Watched δ)) :
    ∃ part, Hands l (handshake (watching device) config l).2 part ∧
      part <+: (initMessage (config.nonce l.handshakes)).packets ∧
      ∀ a, (handshake (watching device) config l).1 = .ok a →
        part = (initMessage (config.nonce l.handshakes)).packets ∧
        ∃ read, (greeted (watching device) config l).inbox = read ++ (handshake (watching device) config l).2.inbox ∧
          Answered (config.nonce l.handshakes) read a := by
  have hrun := run_handshake (watching device) config l
  simp only at hrun
  rcases hs : send (watching device) config ⟨broadcastChannel, .init, (config.nonce l.handshakes).val⟩
    { l with channel := .closed, handshakes := l.handshakes + 1 } with ⟨e | x, t⟩
  all_goals
    rw [hs] at hrun
    obtain ⟨part, hh, hp, hall⟩ := hands_send hs
    have hh : Hands l t part := hh
  · rw [hrun]
    exact ⟨part, hh, hp, nofun⟩
  · have hg : greeted (watching device) config l = t := by
      unfold greeted initMessage
      rw [hs]
    simp only at hrun
    rcases ha : readAllocation (config.nonce l.handshakes) config.initTimeout (.idle broadcastChannel) t.inbox with
      ⟨e | a, unread⟩
    all_goals
      rw [ha] at hrun
      rw [hrun, hg]
    · exact ⟨part, hh, hp, nofun⟩
    · refine ⟨part, hh, hp, fun b hb => ⟨hall rfl, ?_⟩⟩
      obtain rfl := Except.ok.inj hb
      obtain ⟨read, m, packets, he, hsuffix, hm, hc, hk, hparse⟩ := answer_of_readAllocation t.inbox .nothing ha
      exact ⟨read, he, ⟨m, packets, hsuffix, hm, hc, hk, hparse⟩, Allocation.nonce_of_parse hparse⟩

namespace Kept

/-- The acts so far with one more. -/
theorem append {x : Act} (h : Kept acts l) (hx : x.Lawful acts) (hh : Hands l l' x.handed)
    (hc : ∀ a, l'.channel = .allocated a → InForce a (acts ++ [x])) : Kept (acts ++ [x]) l' where
  owned := h.owned.append hx
  handed := by
    rw [List.flatMap_append, h.handed, hh]
    simp
  inForce := hc

/-- A handshake brings the channel in force. -/
theorem handshake (h : Kept acts l) :
    Kept (acts ++ [handshakeAct device config l]) (Link.handshake (watching device) config l).2 := by
  obtain ⟨part, hh, hp, ha⟩ := handshake_answered device config l
  refine h.append ?_ ?_ ?_
  · refine .handshake ?_ fun a hr => ?_
    · rwa [hh.handedBetween]
    · obtain ⟨hall, read, hread, hanswered⟩ := ha a hr
      rw [hh.handedBetween, readBetween, hread, List.length_append, Nat.add_sub_cancel, List.take_left]
      exact ⟨hall, hanswered⟩
  · show Hands l _ (Link.handedBetween l _)
    rwa [hh.handedBetween]
  · intro a hc
    have hr := channel_handshake (watching device) config l
    rw [hc] at hr
    cases hresult : (Link.handshake (watching device) config l).1 with
    | error e =>
      rw [hresult] at hr
      cases hr
    | ok b =>
      rw [hresult] at hr
      obtain rfl := Channel.allocated.inj hr
      unfold handshakeAct
      rw [hresult]
      exact .of_handshake ..

/-- Messages on an open channel. -/
theorem messages (h : Kept acts l) (hc : l.channel = .allocated a) (hs : StaysOn a l l') :
    Kept (acts ++ [.messages (handedBetween l l')]) l' := by
  obtain ⟨part, hh, hp⟩ := hs.handed
  rw [hh.handedBetween]
  refine h.append (.messages fun p hm => ⟨a, h.inForce a hc, hp p hm⟩) hh fun b hb => ?_
  rcases hs.channel with hopen | hstale
  · rw [hopen] at hb
    obtain rfl := Channel.allocated.inj hb
    exact (h.inForce a hc).messages part
  · rw [hstale] at hb
    cases hb

/-- Nothing is handed over on a link that is closed or stale. -/
theorem nothing (h : Kept acts l) (hc : ∀ a, l.channel ≠ .allocated a) :
    Kept (acts ++ [.messages (handedBetween l l)]) l := by
  rw [(Hands.refl l).handedBetween]
  exact h.append (.messages (List.forall_mem_nil _)) (.refl l) fun a ha => absurd ha (hc a)

/-- A message, on the open channel, or after a handshake in place of a stale one. -/
theorem transact (h : Kept acts l) (command : Command) (payload : Bytes) :
    Kept (acts ++ actsOf device config l (.transact command payload))
      (Link.transact (watching device) config command payload l).2 := by
  -- with a channel found or given, or none at all
  have hensured : ∀ {acts : List Act} {l : Link (Watched δ)}, Kept acts l → l.channel ≠ .stale →
      Kept (acts ++ [.messages (handedBetween l (Link.transact (watching device) config command payload l).2)])
        (Link.transact (watching device) config command payload l).2 := by
    intro acts l h hc
    cases hch : l.channel with
    | stale => exact absurd hch hc
    | closed =>
      rw [Link.transact, transactWith_closed hch]
      exact h.nothing (by simp [hch])
    | allocated a => exact h.messages hch (staysOn_transactWith command payload _ hch)
  rw [actsOf, transact_ensured, run_ensureChannel, ← List.append_assoc]
  cases hc : l.channel with
  | closed =>
    rw [if_neg (by simp), List.append_nil]
    exact hensured h (by simp [hc])
  | allocated a =>
    rw [if_neg (by simp), List.append_nil]
    exact hensured h (by simp [hc])
  | stale =>
    have hk : Kept (acts ++ [handshakeAct device config l]) _ := h.handshake
    have hch := channel_handshake (watching device) config l
    rw [if_pos rfl]
    rcases hr : Link.handshake (watching device) config l with ⟨e | a, t⟩
    all_goals
      rw [hr] at hk hch
      refine hensured hk fun hstale => ?_
      rw [hstale] at hch
      cases hch

/-- The message that gives up what is under way. -/
theorem cancel (h : Kept acts l) :
    Kept (acts ++ actsOf device config l .cancel) (Link.cancel (watching device) config l).2 := by
  unfold actsOf
  rw [run_cancel]
  cases hc : l.channel with
  | closed => exact h.nothing (by simp [hc])
  | stale => exact h.nothing (by simp [hc])
  | allocated a => exact h.messages hc (staysOn_send hc (Prod.ext rfl rfl))

/-- A channel that is released is in force no more. -/
theorem release (h : Kept acts l) : Kept (acts ++ [.release]) l.release :=
  h.append .release (.refl l) nofun

/-- Every call keeps it. -/
theorem call (h : Kept acts l) (c : Call) :
    Kept (acts ++ actsOf device config l c) (Link.call (watching device) config l c) := by
  cases c with
  | handshake => exact h.handshake
  | transact command payload => exact h.transact command payload
  | cancel => exact h.cancel
  | release => exact h.release

/-- So do several calls. -/
theorem after (h : Kept acts l) (calls : List Call) :
    Kept (acts ++ history device config l calls) (Link.after (watching device) config l calls) := by
  induction calls generalizing acts l with
  | nil =>
    rw [history, List.append_nil]
    exact h
  | cons c calls ih =>
    rw [history, ← List.append_assoc]
    exact ih (h.call c)

end Kept

/-! ## Any calls -/

/-- In every sequence of calls the host speaks on a channel only while it is in force: each act that handed over
packets was lawful after those before it, and there were no other packets. An open channel was told in an answer, on
the broadcast channel and with the nonce of the last handshake, to the whole message of that handshake. And a handshake
that fails leaves the link closed. -/
theorem channel_owned (device : Device δ) (config : Config) (d : δ) (calls : List Call) :
    let acts := history device config (new ⟨d, []⟩) calls
    let l := after (watching device) config (new ⟨d, []⟩) calls
    acts.flatMap Act.handed = l.device.handed ∧ Owned acts ∧
      (∀ a, l.info? = some a → ∃ before nonce read later,
        acts = before ++ .handshake nonce (initMessage nonce).packets read (.ok a) :: later ∧
          (∀ x ∈ later, x.KeepsChannel) ∧ Answered nonce read a) ∧
      ∀ e l', handshake (watching device) config l = (.error e, l') → l'.channel = .closed := by
  have hstart : Kept [] (new (⟨d, []⟩ : Watched δ)) := ⟨.nil, rfl, nofun⟩
  have hkept : Kept (history device config (new ⟨d, []⟩) calls) (after (watching device) config (new ⟨d, []⟩) calls) :=
    hstart.after calls
  obtain ⟨howned, hhanded, hforce⟩ := hkept
  refine ⟨hhanded, howned, fun a ha => ?_, fun e l' hr => ?_⟩
  · refine (hforce a ?_).answered howned
    unfold info? at ha
    split at ha
    · rename_i b hb
      rw [hb, Option.some.inj ha]
    · cases ha
  · have hc := channel_handshake (watching device) config (after (watching device) config (new ⟨d, []⟩) calls)
    rwa [hr] at hc

end Link

end SecurityKey.Hid
