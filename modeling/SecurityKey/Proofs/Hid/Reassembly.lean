import Mathlib.Algebra.Group.Nat.Defs
import SecurityKey.Hid.Reassembler

/-!
# Messages put together

The packets of a message are put together by whoever listens to its channel.

- `Reassembler.Completes m r packets`: the listener `r` hears the message `m` with the last of the packets, and nothing
  before;
- the packets of a message complete it (`completes_toPackets`).
-/

namespace SecurityKey.Hid

namespace Reassembler

/-- A listener hears a message with the last of the packets and nothing before, and is idle then. -/
inductive Completes (m : Message) : Reassembler → List Packet → Prop
  | last {r : Reassembler} {p : Packet} (h : r.feed p = (.ok (some m), .idle m.channel)) : Completes m r [p]
  | more {r r' : Reassembler} {p : Packet} {rest : List Packet} (h : r.feed p = (.ok none, r'))
      (hr : Completes m r' rest) : Completes m r (p :: rest)

end Reassembler

/-! ## Payloads -/

/-- What a packet holds of some data, cut to their length, is the part that was put in. -/
theorem take_ofPrefix (n : Nat) (data : Bytes) :
    (Bytes.Sized.ofPrefix n (data.take n)).val.take data.length = data.take n := by
  show (((data.take n).take n) ++ List.replicate (n - (data.take n).length) 0).take data.length = data.take n
  rw [List.take_take, Nat.min_self]
  rcases Nat.le_total data.length n with h | h
  · rw [List.take_of_length_le h]
    exact List.take_left
  · have hl : (data.take n).length = n := by rw [List.length_take]; omega
    rw [hl, Nat.sub_self, List.replicate_zero, List.append_nil, List.take_take, Nat.min_eq_right h]

/-- Commands are read back from packets. -/
theorem ofByte?_first (c : Command) : Command.ofByte? (.ofNat (Fin.ofNat 128 c.toByte.toNat : Fin 128)) = some c := by
  cases c <;> decide

/-! ## Packets of a message -/

open Reassembler

/-- A message begins with an initialization packet of its channel, and only continuation packets follow. -/
theorem Message.toPackets_cases (m : Message) {packets : List Packet} (hm : m.toPackets = .ok packets) :
    ∃ p rest, packets = p :: rest ∧ p.isInitial = true ∧ p.channel = m.channel ∧
      ∀ q ∈ rest, q.isInitial = false ∧ q.channel = m.channel := by
  have hrest : ∀ (pieces : List Bytes) (k : Nat) (q : Packet), q ∈ Message.continuations m.channel k pieces →
      q.isInitial = false ∧ q.channel = m.channel := by
    intro pieces
    induction pieces with
    | nil => exact fun _ _ hq => nomatch hq
    | cons piece pieces ih =>
      intro k q hq
      rcases List.mem_cons.mp hq with rfl | hq
      · exact ⟨rfl, rfl⟩
      · exact ih (k + 1) q hq
  unfold toPackets at hm
  split at hm
  · cases hm
  · obtain rfl := Except.ok.inj hm
    exact ⟨_, _, rfl, rfl, rfl, hrest _ _⟩

variable (channel : UInt32) (command : Command)

/-- A message that is not too long has packets. -/
theorem exists_toPackets {data : Bytes} (h : data.length ≤ maxMessageSize) :
    ∃ packets, (⟨channel, command, data⟩ : Message).toPackets = .ok packets :=
  ⟨_, if_neg (Nat.not_lt.mpr h)⟩

/-- A short message has one packet. -/
theorem toPackets_of_short {data : Bytes} (h : data.length ≤ initialSize) :
    ∃ p, (⟨channel, command, data⟩ : Message).toPackets = .ok [p] := by
  have hmax : ¬ maxMessageSize < data.length := by
    have : initialSize ≤ maxMessageSize := by decide
    omega
  have hdrop : data.drop initialSize = [] := List.drop_eq_nil_of_le h
  rw [Message.toPackets, if_neg hmax, hdrop]
  exact ⟨_, rfl⟩

/-- A continuation packet that is expected adds its piece to the message under way. -/
theorem feed_next {rest : Bytes} {p : Partial} {k : Nat} (hk : p.next.toNat = k) (hk' : k < 128)
    (hl : p.length = p.data.length + rest.length) :
    feed ⟨channel, some p⟩ (.next channel k (rest.take continuationSize)) =
      let heard := settle channel { p with data := p.data ++ rest.take continuationSize, next := p.next + 1 }
      (.ok heard.1, ⟨channel, heard.2⟩) := by
  have hn : UInt8.ofNat (Fin.ofNat 128 k : Fin 128) = p.next := by
    apply UInt8.toNat_inj.mp
    have hv : (Fin.ofNat 128 k : Fin 128).val = k := Nat.mod_eq_of_lt hk'
    rw [UInt8.toNat_ofNat', hv, hk]
    omega
  have hp : p.length - p.data.length = rest.length := by omega
  simp only [feed, resume, Packet.next, Packet.channel, ne_eq, not_true_eq_false, if_false, hn, hp, take_ofPrefix]

/-- The continuation packets of what is missing complete a message under way. -/
theorem completes_continuations {length : Nat} (rest : Bytes) :
    ∀ {data : Bytes} {next : UInt8}, rest ≠ [] → length = data.length + rest.length →
      next.toNat * continuationSize + rest.length ≤ 128 * continuationSize →
      Completes ⟨channel, command, data ++ rest⟩ ⟨channel, some ⟨command, length, data, next⟩⟩
        (Message.continuations channel next.toNat (chunks continuationSize rest)) := by
  induction hn : rest.length using Nat.strongRecOn generalizing rest with
  | _ n ih =>
    subst hn
    intro data next hne hl hmax
    have hpos : 0 < rest.length := List.length_pos_iff.mpr hne
    have hk : next.toNat < 128 := by unfold continuationSize at hmax; omega
    rw [chunks_of_ne_nil (by decide) hne, Message.continuations]
    have hfeed := feed_next channel (p := ⟨command, length, data, next⟩) rfl hk hl
    have happ : data ++ rest = (data ++ rest.take continuationSize) ++ rest.drop continuationSize := by
      rw [List.append_assoc, List.take_append_drop]
    by_cases hlast : rest.length ≤ continuationSize
    · have hdrop : rest.drop continuationSize = [] := List.drop_eq_nil_of_le hlast
      have htake : rest.take continuationSize = rest := List.take_of_length_le hlast
      rw [hdrop]
      refine .last (hfeed.trans ?_)
      rw [htake, settle, if_pos (by simp [hl])]
      rfl
    · have hlen : (rest.drop continuationSize).length = rest.length - continuationSize := List.length_drop
      have hdata : (data ++ rest.take continuationSize).length = data.length + continuationSize := by
        rw [List.length_append, List.length_take]
        omega
      have hnext : (next + 1).toNat = next.toNat + 1 := by
        rw [UInt8.toNat_add]
        show (next.toNat + 1) % 256 = _
        omega
      rw [settle, if_neg (by simp only; omega)] at hfeed
      rw [happ, ← hnext]
      refine .more hfeed (ih _ (by omega) _ rfl ?_ (by omega) ?_)
      · rw [← List.length_pos_iff]
        omega
      · rw [hnext]
        unfold continuationSize at hmax hlen ⊢
        omega

/-- The packets of a message complete it. -/
theorem completes_toPackets {m : Message} {packets : List Packet} (h : m.toPackets = .ok packets) :
    Completes m (.idle m.channel) packets := by
  unfold Message.toPackets at h
  split at h
  · cases h
  · rename_i hmax
    obtain rfl := Except.ok.inj h
    have hlen : (UInt16.ofNat m.data.length).toNat = m.data.length := by
      rw [UInt16.toNat_ofNat']
      apply Nat.mod_eq_of_lt
      have : maxMessageSize < 2 ^ 16 := by decide
      omega
    have hfeed : feed (.idle m.channel) (.first m.channel m.command (.ofNat m.data.length) (m.data.take initialSize)) =
        let heard := settle m.channel ⟨m.command, m.data.length, m.data.take initialSize, 0⟩
        (.ok heard.1, ⟨m.channel, heard.2⟩) := by
      simp only [feed, idle, start, Packet.first, Packet.channel, ne_eq, not_true_eq_false, if_false, ofByte?_first,
        hlen, hmax, take_ofPrefix]
    by_cases hlast : m.data.length ≤ initialSize
    · have hdrop : m.data.drop initialSize = [] := List.drop_eq_nil_of_le hlast
      have htake : m.data.take initialSize = m.data := List.take_of_length_le hlast
      rw [hdrop]
      refine .last (hfeed.trans ?_)
      rw [htake, settle, if_pos (Nat.le_refl _)]
      rfl
    · have htake : (m.data.take initialSize).length = initialSize := by
        rw [List.length_take]
        omega
      have hdrop : (m.data.drop initialSize).length = m.data.length - initialSize := List.length_drop
      rw [settle, if_neg (by simp only; omega)] at hfeed
      have hrest : Completes ⟨m.channel, m.command, m.data.take initialSize ++ m.data.drop initialSize⟩
          ⟨m.channel, some ⟨m.command, m.data.length, m.data.take initialSize, 0⟩⟩
          (Message.continuations m.channel 0 (chunks continuationSize (m.data.drop initialSize))) := by
        refine completes_continuations _ _ _ ?_ (by omega) ?_
        · rw [← List.length_pos_iff]
          omega
        · unfold maxMessageSize at hmax
          show 0 * continuationSize + _ ≤ _
          omega
      rw [List.take_append_drop] at hrest
      exact .more hfeed hrest

end SecurityKey.Hid
