import SecurityKey.Proofs.Hid.Streams

/-!
# Messages as traffic

What is cut into packets is put together again by a listener, message after message, whatever packets of other channels
pass by between the messages.

- `Reassembler.feedAll`: packets heard in order, with the messages they complete;
- a message has one packet and one more for each further 59 bytes (`toPackets_numbered`), numbered from zero
  (`number_continuations`);
- messages in their packets are heard as they are, and in order (`feedAll_traffic`).
-/

namespace SecurityKey.Hid

/-! ## Packets heard in order -/

namespace Reassembler

/-- Packets heard in order: the messages they complete and the listener after them, unless a packet is refused. -/
def feedAll (r : Reassembler) : List Packet → Except Link.Error (List Message × Reassembler)
  | [] => .ok ([], r)
  | p :: rest =>
    match r.feed p with
    | (.error e, _) => .error e
    | (.ok m, r) => (r.feedAll rest).map fun (ms, r) => (m.toList ++ ms, r)

variable {r r' : Reassembler} {m : Message} {ms : List Message} {channel : UInt32} {packets : List Packet}

theorem feedAll_append (h : r.feedAll packets = .ok (ms, r')) (later : List Packet) :
    r.feedAll (packets ++ later) = (r'.feedAll later).map fun (ns, r) => (ms ++ ns, r) := by
  induction packets generalizing r ms with
  | nil =>
    obtain ⟨rfl, rfl⟩ := Prod.mk.inj (Except.ok.inj h)
    cases hl : r.feedAll later with
    | error e => simp [hl, Except.map]
    | ok x => simp [hl, Except.map]
  | cons p rest ih =>
    rw [feedAll] at h
    rw [List.cons_append, feedAll]
    rcases hf : r.feed p with ⟨e | m, s⟩
    · rw [hf] at h
      cases h
    · rw [hf] at h
      simp only at h ⊢
      cases hr : s.feedAll rest with
      | error e =>
        rw [hr] at h
        cases h
      | ok x =>
        obtain ⟨ns, t⟩ := x
        rw [hr] at h
        obtain ⟨rfl, rfl⟩ := Prod.mk.inj (Except.ok.inj h)
        rw [ih hr]
        cases t.feedAll later with
        | error e => rfl
        | ok x => simp [Except.map]

/-- Packets that complete a message give that message. -/
theorem feedAll_completes (h : r.Completes m packets) : r.feedAll packets = .ok ([m], .idle m.channel) := by
  induction h with
  | last hf =>
    rw [feedAll, hf]
    rfl
  | more hf _ ih =>
    rw [feedAll, hf]
    simp only
    rw [ih]
    rfl

/-- Packets of other channels pass an idle listener by. -/
theorem feedAll_foreign (h : ∀ p ∈ packets, p.channel ≠ channel) :
    (idle channel).feedAll packets = .ok ([], .idle channel) := by
  induction packets with
  | nil => rfl
  | cons p rest ih =>
    have hp : (idle channel).feed p = (.ok none, .idle channel) := by
      simp only [feed, idle, start, ne_eq, h p (List.mem_cons_self ..), not_false_eq_true, if_true]
    rw [feedAll, hp]
    simp only
    rw [ih fun q hq => h q (List.mem_cons_of_mem _ hq)]
    rfl

end Reassembler

/-! ## The packets of a message -/

theorem length_continuations (channel : UInt32) (number : Nat) (pieces : List Bytes) :
    (Message.continuations channel number pieces).length = pieces.length := by
  induction pieces generalizing number with
  | nil => rfl
  | cons piece pieces ih => rw [Message.continuations, List.length_cons, ih, List.length_cons]

/-- Continuation packets are numbered in order. -/
theorem number_continuations (channel : UInt32) (pieces : List Bytes) (number i : Nat)
    (h : i < (Message.continuations channel number pieces).length) (hn : number + pieces.length ≤ 128) :
    (Message.continuations channel number pieces)[i].number? = some (UInt8.ofNat (number + i)) := by
  induction pieces generalizing number i with
  | nil => exact absurd h (Nat.not_lt_zero _)
  | cons piece pieces ih =>
    rw [List.length_cons] at hn
    cases i with
    | zero =>
      have hm : number % 128 = number := Nat.mod_eq_of_lt (by omega)
      show some (UInt8.ofNat (number % 128)) = _
      rw [hm]
      rfl
    | succ i =>
      have hi := ih (number + 1) i (Nat.lt_of_succ_lt_succ h) (by omega)
      rw [Nat.add_assoc, Nat.add_comm 1 i] at hi
      exact hi

/-- A message that fits has one packet and one more for each 59 bytes, or part of them, that do not fit the first. -/
theorem toPackets_numbered {m : Message} (h : m.Fits) :
    ∃ first rest, m.toPackets = .ok (first :: rest) ∧ rest.length = (m.data.length - initialSize + 58) / 59 ∧
      rest.length ≤ 128 ∧ ∀ i (hi : i < rest.length), rest[i].number? = some (UInt8.ofNat i) := by
  have hl : (chunks continuationSize (m.data.drop initialSize)).length = (m.data.length - initialSize + 58) / 59 := by
    rw [length_chunks (by decide), List.length_drop]
    rfl
  have hmax : (m.data.length - initialSize + 58) / 59 ≤ 128 := by
    have h : m.data.length ≤ 57 + 128 * 59 := h
    unfold initialSize
    omega
  refine ⟨_, _, if_neg (Nat.not_lt.mpr h), ?_, ?_, ?_⟩
  · rw [length_continuations, hl]
  · rw [length_continuations, hl]
    exact hmax
  · intro i hi
    have hn := number_continuations m.channel _ 0 i hi (by omega)
    rw [Nat.zero_add] at hn
    exact hn

/-! ## Traffic -/

open Reassembler in
/-- Messages of a channel, each behind packets of other channels. -/
theorem feedAll_messages {channel : UInt32} {traffic : List (List Packet × Message)}
    (hm : ∀ x ∈ traffic, x.2.channel = channel ∧ x.2.Fits) (hf : ∀ x ∈ traffic, ∀ p ∈ x.1, p.channel ≠ channel) :
    feedAll (.idle channel) (traffic.flatMap fun x => x.1 ++ x.2.packets) =
      .ok (traffic.map Prod.snd, .idle channel) := by
  induction traffic with
  | nil => rfl
  | cons x traffic ih =>
    obtain ⟨foreign, m⟩ := x
    obtain ⟨rfl, hfits⟩ := hm (foreign, m) (List.mem_cons_self ..)
    have hforeign := feedAll_foreign (hf (foreign, m) (List.mem_cons_self ..))
    have hwhole := feedAll_completes (completes_toPackets (Message.toPackets_of_fits hfits))
    have ih := ih (fun y hy => hm y (List.mem_cons_of_mem _ hy)) fun y hy => hf y (List.mem_cons_of_mem _ hy)
    rw [List.flatMap_cons, List.append_assoc, feedAll_append hforeign, feedAll_append hwhole, ih]
    rfl

/-- Messages of a channel that fit, each in its packets, with packets of other channels before, between and behind
them, are heard as they are and in order, and leave the listener idle. A message has one packet and one more for each
59 bytes behind the first 57, at most 129, the later ones numbered from 0 to 127; exactly the messages of more than
7609 bytes are refused. -/
theorem feedAll_traffic (channel : UInt32) (traffic : List (List Packet × Message)) (behind : List Packet)
    (hm : ∀ x ∈ traffic, x.2.channel = channel ∧ x.2.data.length ≤ 7609)
    (hf : ∀ x ∈ traffic, ∀ p ∈ x.1, p.channel ≠ channel) (hb : ∀ p ∈ behind, p.channel ≠ channel) :
    (∀ x ∈ traffic, x.2.toPackets = .ok x.2.packets) ∧
    Reassembler.feedAll (.idle channel) ((traffic.flatMap fun x => x.1 ++ x.2.packets) ++ behind) =
      .ok (traffic.map Prod.snd, .idle channel) ∧
    ∀ m : Message,
      (m.data.length ≤ 7609 → ∃ first rest, m.toPackets = .ok (first :: rest) ∧
        (first :: rest).length = 1 + (m.data.length - 57 + 58) / 59 ∧ (first :: rest).length ≤ 129 ∧
        ∀ i (hi : i < rest.length), rest[i].number? = some (UInt8.ofNat i) ∧ i ≤ 127) ∧
      (m.toPackets = .error .messageTooLarge ↔ 7609 < m.data.length) := by
  have hmax : maxMessageSize = 7609 := rfl
  refine ⟨?_, ?_, ?_⟩
  · intro x hx
    exact Message.toPackets_of_fits (hm x hx).2
  · rw [Reassembler.feedAll_append (feedAll_messages hm hf), Reassembler.feedAll_foreign hb]
    simp [Except.map]
  · intro m
    constructor
    · intro h
      obtain ⟨first, rest, hp, hl, hle, hn⟩ := toPackets_numbered h
      refine ⟨first, rest, hp, ?_, ?_, ?_⟩
      · rw [List.length_cons, hl, Nat.add_comm]
        rfl
      · rw [List.length_cons]
        omega
      · intro i hi
        exact ⟨hn i hi, by omega⟩
    · unfold Message.toPackets
      rw [hmax]
      split
      · simp [*]
      · simp [*]

/-- An empty message and one of two packets, with packets of another channel around. -/
theorem feedAll_traffic_of_two :
    let foreign : Packet := .next 2 0 [1]
    let traffic : List (List Packet × Message) :=
      [([foreign], ⟨1, .ping, []⟩), ([foreign, foreign], ⟨1, .cbor, List.replicate 58 7⟩)]
    (∀ x ∈ traffic, ∀ p ∈ x.1, p.channel ≠ 1) ∧
      Reassembler.feedAll (.idle 1) ((traffic.flatMap fun x => x.1 ++ x.2.packets) ++ [foreign]) =
        .ok (traffic.map Prod.snd, .idle 1) := by
  intro foreign traffic
  have hm : ∀ x ∈ traffic, x.2.channel = 1 ∧ x.2.data.length ≤ 7609 := by decide
  have hf : ∀ x ∈ traffic, ∀ p ∈ x.1, p.channel ≠ 1 := by decide
  exact ⟨hf, (feedAll_traffic 1 traffic [foreign] hm hf (by decide)).2.1⟩

end SecurityKey.Hid
