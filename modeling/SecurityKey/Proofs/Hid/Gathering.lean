import Mathlib.Data.List.Induction
import SecurityKey.Hid.Reassembler

/-!
# What a listener gathers

A listener takes whatever arrives: packets of any channel, any kind and any number, at any time. What it holds is
nevertheless always the beginning of one message, and what it gives is one message as it was sent.

- `Carries`: packets that begin with the announcement of a message and go on with its numbered continuations;
- `Holds`: the packets taken since the listener was idle carry a message, and the listener holds their payloads;
- one packet keeps that, completes the message or leaves the listener idle (`holds_feed`);
- so it is with every sequence of packets and resets (`holds_after`, `gathering_sound`).
-/

namespace SecurityKey.Hid

/-- What may happen to a listener. -/
inductive Stimulus
  /-- A packet of 64 bytes arrives. -/
  | report (bytes : Bytes.Sized 64)
  | reset

namespace Reassembler

/-- The listener after something happened to it. -/
def react (r : Reassembler) : Stimulus → Reassembler
  | .report b => (r.feed (.ofSized b)).2
  | .reset => r.reset

/-- The listener after several things happened to it, in order. -/
def after (r : Reassembler) (stimuli : List Stimulus) : Reassembler := stimuli.foldl react r

/-! ## Packets that carry a message -/

/-- A first packet of a channel announces a command and a length, and the continuation packets of the channel follow
it in the order of their numbers. -/
structure Carries (channel : UInt32) (command : Command) (length : Nat) (first : Packet) (rest : List Packet) :
    Prop where
  channels : ∀ p ∈ first :: rest, p.channel = channel
  commandRead : first.command? = some command
  lengthRead : first.length?.map UInt16.toNat = some length
  fits : length ≤ maxMessageSize
  few : rest.length ≤ 128
  numbers : rest.map Packet.number? = (List.range rest.length).map fun i => some (UInt8.ofNat i)

/-- The payloads of packets, one after the other. -/
def payloads (packets : List Packet) : Bytes := packets.flatMap Packet.payload

variable {channel : UInt32} {command : Command} {length : Nat} {first p : Packet} {rest packets : List Packet}

theorem length_payload_of_length? {n : Nat} (h : p.length?.map UInt16.toNat = some n) :
    p.payload.length = initialSize := by
  cases p with
  | initial _ _ _ payload => exact payload.property
  | continuation _ _ _ => cases h

theorem length_payloads_of_numbers {l : List UInt8} (h : rest.map Packet.number? = l.map some) :
    (payloads rest).length = continuationSize * rest.length := by
  induction rest generalizing l with
  | nil => rfl
  | cons p rest ih =>
    cases l with
    | nil => cases h
    | cons n l =>
      obtain ⟨hp, hr⟩ := List.cons.inj h
      have hl : p.payload.length = continuationSize := by
        cases p with
        | initial _ _ _ _ => cases hp
        | continuation _ _ payload => exact payload.property
      have ih : (payloads rest).length = _ := ih hr
      show (p.payload ++ payloads rest).length = _
      rw [List.length_append, hl, ih, List.length_cons, Nat.mul_succ]
      omega

/-- How much payload the packets of a message have. -/
theorem Carries.length_payloads (h : Carries channel command length first rest) :
    (payloads (first :: rest)).length = initialSize + continuationSize * rest.length := by
  have hrest : (payloads rest).length = continuationSize * rest.length := by
    apply length_payloads_of_numbers (l := (List.range rest.length).map UInt8.ofNat)
    rw [h.numbers, List.map_map]
    rfl
  show (first.payload ++ payloads rest).length = _
  rw [List.length_append, length_payload_of_length? h.lengthRead, hrest]

/-- The next continuation packet. -/
theorem Carries.append (h : Carries channel command length first rest) (hc : p.channel = channel)
    (hn : p.number? = some (UInt8.ofNat rest.length)) (hl : rest.length < 128) :
    Carries channel command length first (rest ++ [p]) where
  channels := by
    intro q hq
    rw [← List.cons_append, List.mem_append, List.mem_singleton] at hq
    rcases hq with hq | rfl
    · exact h.channels q hq
    · exact hc
  commandRead := h.commandRead
  lengthRead := h.lengthRead
  fits := h.fits
  few := by
    rw [List.length_append, List.length_singleton]
    exact hl
  numbers := by
    rw [List.map_append, h.numbers, List.length_append, List.length_singleton, List.range_succ, List.map_append,
      List.map_singleton, List.map_singleton, hn]

/-! ## What is held -/

/-- What a listener holds of the packets taken since it was idle. -/
inductive Holds (channel : UInt32) : Option Partial → List Packet → Prop
  | nothing : Holds channel none []
  | beginning {p : Partial} {first : Packet} {rest : List Packet}
      (carries : Carries channel p.command p.length first rest) (next : p.next.toNat = rest.length)
      (data : p.data = payloads (first :: rest)) (missing : p.data.length < p.length) :
      Holds channel (some p) (first :: rest)

/-- The bounds of what is held: the length goes with the number of the next packet, something is missing, and the
numbers are far from running over. -/
theorem Holds.bounds {p : Partial} (h : Holds channel (some p) packets) :
    p.data.length = initialSize + continuationSize * p.next.toNat ∧ p.data.length < p.length ∧
      p.length ≤ maxMessageSize ∧ p.next.toNat ≤ 127 := by
  cases h with
  | beginning hc hn hd hm =>
    have hl := hc.length_payloads
    rw [← hd, ← hn] at hl
    have hf := hc.fits
    refine ⟨hl, hm, hf, ?_⟩
    unfold initialSize continuationSize at hl
    unfold maxMessageSize initialSize continuationSize at hf
    omega

/-- A message made up by packets: the payloads of the packets that carry it, cut to the announced length. -/
structure MakesUp (m : Message) (packets : List Packet) : Prop where
  carries : ∃ first rest, packets = first :: rest ∧ Carries m.channel m.command m.data.length first rest
  data : m.data = (payloads packets).take m.data.length

/-- Once the packets of a message are heard, the message is whole or its beginning is held. -/
theorem holds_settle {p : Partial} (hc : Carries channel p.command p.length first rest)
    (hn : p.next.toNat = rest.length) (hd : p.data = (payloads (first :: rest)).take p.length) :
    (∃ m, settle channel p = (some m, none) ∧ m.channel = channel ∧ MakesUp m (first :: rest)) ∨
      settle channel p = (none, some p) ∧ Holds channel (some p) (first :: rest) := by
  have hl : p.data.length ≤ p.length := by
    rw [hd, List.length_take]
    omega
  by_cases h : p.length ≤ p.data.length
  · have he : p.data.length = p.length := by omega
    refine .inl ⟨⟨channel, p.command, p.data⟩, if_pos h, rfl, ⟨first, rest, rfl, ?_⟩, ?_⟩
    · show Carries channel p.command p.data.length first rest
      rw [he]
      exact hc
    · show p.data = (payloads (first :: rest)).take p.data.length
      rw [he]
      exact hd
  · have hall : p.data = payloads (first :: rest) := by
      rw [hd] at h ⊢
      apply List.take_of_length_le
      rw [List.length_take] at h
      omega
    exact .inr ⟨if_neg h, .beginning hc hn hall (by omega)⟩

/-! ## One packet -/

/-- What one packet does to a listener: it is passed over, completes the message, adds to it, or is refused. -/
inductive Effect (channel : UInt32) (packets : List Packet) (p : Packet) :
    Except Link.Error (Option Message) × Reassembler → Prop
  | passed (foreign : p.channel ≠ channel) (idle : packets = []) : Effect channel packets p (.ok none, .idle channel)
  | completed {m : Message} (own : m.channel = channel) (whole : MakesUp m (packets ++ [p])) :
      Effect channel packets p (.ok (some m), .idle channel)
  | added {held : Partial} (holds : Holds channel (some held) (packets ++ [p])) :
      Effect channel packets p (.ok none, ⟨channel, some held⟩)
  | refused (e : Link.Error) : Effect channel packets p (.error e, .idle channel)

/-- A message that is whole or only begun, as the effect of its last packet. -/
theorem effect_settle {held : Partial} (first : Packet) (rest : List Packet) (hp : packets ++ [p] = first :: rest)
    (hc : Carries channel held.command held.length first rest) (hn : held.next.toNat = rest.length)
    (hd : held.data = (payloads (first :: rest)).take held.length) :
    Effect channel packets p (.ok (settle channel held).1, ⟨channel, (settle channel held).2⟩) := by
  rcases holds_settle hc hn hd with ⟨m, hs, hm, hw⟩ | ⟨hs, hh⟩
  · rw [hs]
    exact .completed hm (hp ▸ hw)
  · rw [hs]
    exact .added (hp ▸ hh)

/-- One packet for an idle listener. -/
theorem effect_start (p : Packet) : Effect channel [] p (feed ⟨channel, none⟩ p) := by
  unfold feed start
  by_cases hc : p.channel = channel
  · simp only [hc, ne_eq, not_true_eq_false, if_false]
    cases p with
    | continuation _ number _ => exact .refused _
    | initial c kind announced payload =>
      cases hk : Command.ofByte? (.ofNat kind) with
      | none =>
        simp only [hk]
        exact .refused _
      | some command =>
        by_cases hm : maxMessageSize < announced.toNat
        · simp only [hk, hm, if_true]
          exact .refused _
        · simp only [hk, hm, if_false]
          apply effect_settle (.initial c kind announced payload) []
          · rfl
          · constructor
            · intro q hq
              rw [List.mem_singleton.mp hq]
              exact hc
            · exact hk
            · rfl
            · exact Nat.le_of_not_lt hm
            · exact Nat.zero_le _
            · rfl
          · rfl
          · show payload.val.take announced.toNat = (payload.val ++ []).take announced.toNat
            rw [List.append_nil]
  · simp only [hc, ne_eq, not_false_eq_true, if_true]
    exact .passed hc rfl

/-- One packet for a listener that holds the beginning of a message. -/
theorem effect_resume {held : Partial} (h : Holds channel (some held) packets) (p : Packet) :
    Effect channel packets p (feed ⟨channel, some held⟩ p) := by
  have hb := h.bounds
  unfold feed resume
  by_cases hc : p.channel = channel
  · simp only [hc, ne_eq, not_true_eq_false, if_false]
    cases p with
    | initial _ _ _ _ => exact .refused _
    | continuation c number payload =>
      by_cases hn : UInt8.ofNat number = held.next
      · simp only [hn, not_true_eq_false, if_false]
        cases h with
        | @beginning _ first rest hcarries hnext hdata hmissing =>
          apply effect_settle first (rest ++ [.continuation c number payload])
          · rfl
          · apply hcarries.append hc
            · show some (UInt8.ofNat number) = _
              rw [hn, ← hnext, UInt8.ofNat_toNat]
            · omega
          · show (held.next + 1).toNat = _
            rw [UInt8.toNat_add, List.length_append, ← hnext]
            show (held.next.toNat + 1) % 256 = held.next.toNat + 1
            omega
          · show held.data ++ payload.val.take (held.length - held.data.length) = List.take held.length _
            have hall : payloads (first :: (rest ++ [.continuation c number payload])) = held.data ++ payload.val := by
              rw [hdata, ← List.cons_append]
              show List.flatMap _ _ = _
              rw [List.flatMap_append, List.flatMap_singleton]
              rfl
            rw [hall, List.take_append, List.take_of_length_le (Nat.le_of_lt hmissing)]
      · simp only [hn, not_false_eq_true, if_true]
        exact .refused _
  · simp only [hc, ne_eq, not_false_eq_true, if_true]
    exact .refused _

/-- One packet for any listener. -/
theorem holds_feed {pending : Option Partial} (h : Holds channel pending packets) (p : Packet) :
    Effect channel packets p (feed ⟨channel, pending⟩ p) := by
  cases h with
  | nothing => exact effect_start p
  | beginning hc hn hd hm => exact effect_resume (.beginning hc hn hd hm) p

/-! ## Any sequence of packets and resets -/

theorem after_append (r : Reassembler) (front back : List Stimulus) :
    r.after (front ++ back) = (r.after front).after back := List.foldl_append

/-- The packets that a listener has taken since it was last idle: it was idle before the first of them and at no
time since. -/
structure Since (channel : UInt32) (stimuli : List Stimulus) (taken : List (Bytes.Sized 64)) : Prop where
  begun : ∃ before, stimuli = before ++ taken.map .report ∧ (after (.idle channel) before).isIdle = true ∧
    ∀ k < taken.length, (after (.idle channel) (before ++ (taken.take (k + 1)).map .report)).isIdle = false

/-- An idle listener has taken nothing since. -/
theorem Since.nil {stimuli : List Stimulus} (h : (after (.idle channel) stimuli).isIdle = true) :
    Since channel stimuli [] :=
  ⟨stimuli, (List.append_nil _).symm, h, fun _ hk => absurd hk (Nat.not_lt_zero _)⟩

/-- A packet after which the listener is not idle is one more of them. -/
theorem Since.append {stimuli : List Stimulus} {taken : List (Bytes.Sized 64)} {b : Bytes.Sized 64}
    (h : Since channel stimuli taken) (hb : (after (.idle channel) (stimuli ++ [.report b])).isIdle = false) :
    Since channel (stimuli ++ [.report b]) (taken ++ [b]) := by
  obtain ⟨before, rfl, hi, hk⟩ := h.begun
  refine ⟨before, by rw [List.map_append, List.append_assoc]; rfl, hi, ?_⟩
  intro k hlt
  rw [List.length_append, List.length_singleton] at hlt
  by_cases he : k < taken.length
  · rw [List.take_append_of_le_length (by omega)]
    exact hk k he
  · have hk : taken.length = k := by omega
    subst hk
    rw [List.take_of_length_le (by simp), List.map_append, ← List.append_assoc]
    exact hb

/-- Whatever happens to a listener, it holds what the packets taken since it was last idle carry. -/
theorem holds_after (channel : UInt32) (stimuli : List Stimulus) :
    ∃ taken pending, after (.idle channel) stimuli = ⟨channel, pending⟩ ∧ Since channel stimuli taken ∧
      Holds channel pending (taken.map .ofSized) := by
  -- the stimuli are taken off the end, so that the last one meets what the others left
  induction stimuli using List.reverseRecOn with
  | nil => exact ⟨[], none, rfl, .nil rfl, .nothing⟩
  | append_singleton stimuli x ih =>
    obtain ⟨taken, pending, ha, hs, hh⟩ := ih
    have hx : after (.idle channel) (stimuli ++ [x]) = react ⟨channel, pending⟩ x := by
      rw [after_append, ha]
      rfl
    have hidle : after (.idle channel) (stimuli ++ [x]) = .idle channel →
        ∃ taken pending, after (.idle channel) (stimuli ++ [x]) = ⟨channel, pending⟩ ∧
          Since channel (stimuli ++ [x]) taken ∧ Holds channel pending (taken.map .ofSized) := by
      intro h
      exact ⟨[], none, h, .nil (by rw [h]; rfl), .nothing⟩
    cases x with
    | reset => exact hidle hx
    | report b =>
      have he := holds_feed hh (.ofSized b)
      replace hx : after (.idle channel) (stimuli ++ [.report b]) = (feed ⟨channel, pending⟩ (.ofSized b)).2 := hx
      generalize feed ⟨channel, pending⟩ (.ofSized b) = result at he hx
      cases he with
      | passed _ _ => exact hidle hx
      | completed _ _ => exact hidle hx
      | refused _ => exact hidle hx
      | @added held hadded =>
        refine ⟨taken ++ [b], some held, hx, hs.append (by rw [hx]; rfl), ?_⟩
        rw [List.map_append]
        exact hadded

/-- Whatever was heard and whenever the listener was reset: a message that a packet completes is carried by exactly the
packets taken since the listener was last idle; what is held of a message stays within its bounds, so that neither the
missing length nor the number of the next packet runs over; and a refused packet leaves the listener idle. -/
theorem gathering_sound (channel : UInt32) (stimuli : List Stimulus) :
    (∀ b m r, feed (after (.idle channel) stimuli) (.ofSized b) = (.ok (some m), r) →
      m.channel = channel ∧ m.data.length ≤ 7609 ∧
        ∃ taken, Since channel stimuli taken ∧ MakesUp m ((taken ++ [b]).map .ofSized)) ∧
    (∀ p, (after (.idle channel) stimuli).pending = some p →
      p.data.length = 57 + 59 * p.next.toNat ∧ p.data.length < p.length ∧ p.length ≤ 7609 ∧ p.next.toNat ≤ 127 ∧
        (p.next + 1).toNat = p.next.toNat + 1) ∧
    (∀ b e r, feed (after (.idle channel) stimuli) (.ofSized b) = (.error e, r) → r.isIdle = true) := by
  obtain ⟨taken, pending, ha, hs, hh⟩ := holds_after channel stimuli
  rw [ha]
  refine ⟨?_, ?_, ?_⟩
  · intro b m r hf
    have he := holds_feed hh (.ofSized b)
    rw [hf] at he
    cases he with
    | completed hm hw =>
      obtain ⟨_, _, -, hc⟩ := hw.carries
      rw [← List.map_singleton, ← List.map_append] at hw
      exact ⟨hm, hc.fits, taken, hs, hw⟩
  · rintro p rfl
    obtain ⟨hl, hm, hf, hn⟩ := hh.bounds
    refine ⟨hl, hm, hf, hn, ?_⟩
    rw [UInt8.toNat_add]
    show (p.next.toNat + 1) % 256 = _
    omega
  · intro b e r hf
    have he := holds_feed hh (.ofSized b)
    rw [hf] at he
    cases he with
    | refused => rfl

/-- A message of 58 bytes, behind a packet of another channel. -/
theorem gathering_sound_of_two :
    let foreign : Bytes.Sized 64 := ⟨[0, 0, 0, 2] ++ List.replicate 60 5, rfl⟩
    let first : Bytes.Sized 64 := ⟨[0, 0, 0, 1, 0x81, 0, 58] ++ List.replicate 57 7, rfl⟩
    let next : Bytes.Sized 64 := ⟨[0, 0, 0, 1, 0, 9] ++ List.replicate 58 0, rfl⟩
    let m : Message := ⟨1, .ping, List.replicate 57 7 ++ [9]⟩
    feed (after (.idle 1) [.report foreign, .report first]) (.ofSized next) = (.ok (some m), .idle 1) ∧
      ∃ taken, Since 1 [.report foreign, .report first] taken ∧ MakesUp m ((taken ++ [next]).map .ofSized) := by
  intro foreign first next m
  have hf : feed (after (.idle 1) [.report foreign, .report first]) (.ofSized next) = (.ok (some m), .idle 1) := by
    decide +kernel
  exact ⟨hf, ((gathering_sound 1 [.report foreign, .report first]).1 next m _ hf).2.2⟩

end Reassembler

end SecurityKey.Hid
