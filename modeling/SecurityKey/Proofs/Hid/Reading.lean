import SecurityKey.Proofs.Hid.Streams

/-!
# Reading answers

- the host reads the packets of a message as that message (`readAnswer_completes`);
- `Outcome`: what reading an answer can bring when the stream is spelled by messages, and what of the stream is left
  (`readAnswer_outcome`);
- a stream that goes on in the middle of a message of the channel brings no answer (`readAnswer_of_stuck`).
-/

namespace SecurityKey.Hid

/-- Whether the host goes on waiting for an answer after a message on its channel: after a keepalive it reads on, after
an error report that asks for patience it tries again. -/
def Message.isPassedOver (m : Message) : Bool :=
  m.command = .keepalive || (m.command = .error && (reportedError m.data).isRetryable)

namespace Link

open Reassembler (Completes)

/-- The packets of a message are read as that message: a keepalive is passed over, an error report is an error, and
any other message is the answer when it is of the expected command. -/
theorem readAnswer_completes {m : Message} {r : Reassembler} {packets : List Packet} (h : Completes m r packets)
    (command : Command) (rest : List Event) :
    readAnswer command r (packets.map .packet ++ rest) =
      if m.command = .keepalive then readAnswer command (.idle m.channel) rest
      else if m.command = .error then (.error (reportedError m.data), rest)
      else if m.command = command then (.ok m.data, rest)
      else (.error .invalidCommand, rest) := by
  induction h with
  | last h =>
    rw [List.map_cons, List.cons_append, readAnswer, h]
    rfl
  | more h _ ih =>
    rw [List.map_cons, List.cons_append, readAnswer, h]
    exact ih

/-! ## What is left unread -/

/-- Reading an answer leaves the last of the events. -/
theorem readAnswer_suffix (command : Command) (r : Reassembler) (events : List Event) :
    (readAnswer command r events).2 <:+ events := by
  fun_induction readAnswer command r events with
  | case1 => exact List.suffix_rfl
  | case2 | case3 | case4 => exact List.suffix_cons ..
  | case5 _ _ _ _ _ ih => exact ih.trans (List.suffix_cons ..)
  | case6 _ _ _ _ _ _ _ ih => exact ih.trans (List.suffix_cons ..)
  | case7 | case8 | case9 => exact List.suffix_cons ..

/-- Reading an allocation leaves the last of the events. -/
theorem readAllocation_suffix (nonce : Bytes.Sized 8) (remaining : Nat) (r : Reassembler) (events : List Event) :
    (readAllocation nonce remaining r events).2 <:+ events := by
  fun_induction readAllocation nonce remaining r events with
  | case1 | case2 => exact List.suffix_rfl
  | case3 _ _ _ _ _ ih => exact ih.trans (List.suffix_cons ..)
  | case4 | case5 => exact List.suffix_cons ..
  | case6 _ _ _ _ _ _ _ ih => exact ih.trans (List.suffix_cons ..)
  | case7 => exact List.suffix_cons ..
  | case8 _ _ _ _ _ _ _ _ _ ih => exact ih.trans (List.suffix_cons ..)

/-! ## Reading from a stream of messages -/

variable {channel : UInt32} {command : Command} {owed : List Packet}

/-- Between messages, packets of other channels are passed over. -/
theorem feed_of_other {p : Packet} (h : p.channel ≠ channel) :
    Reassembler.feed (.idle channel) p = (.ok none, .idle channel) := by
  simp [Reassembler.feed, Reassembler.idle, Reassembler.start, h]

/-- Between messages, a continuation packet of the channel is out of sequence. -/
theorem feed_of_stray {p : Packet} (hi : p.isInitial = false) (h : p.channel = channel) :
    ∃ number, Reassembler.feed (.idle channel) p = (.error (.invalidSequence 0 number), .idle channel) := by
  cases p with
  | initial => cases hi
  | continuation _ number _ =>
    obtain rfl := h
    refine ⟨.ofNat number, ?_⟩
    simp [Reassembler.feed, Reassembler.idle, Reassembler.start, Reassembler.reset]

/-- The stream goes on in the middle of a message of the channel. -/
def Stuck (channel : UInt32) (stream : List Packet) : Prop :=
  ∃ p rest, stream = p :: rest ∧ p.isInitial = false ∧ p.channel = channel

/-- In the middle of a message no answer is read; where the host may try again, it is still there. -/
theorem readAnswer_of_stuck {events : List Event} (h : Stuck channel (packetsIn events ++ owed)) :
    ∃ e, (readAnswer command (.idle channel) events).1 = .error e ∧
      (e.isRetryable = true → Stuck channel (packetsIn (readAnswer command (.idle channel) events).2 ++ owed)) := by
  cases events with
  | nil => exact ⟨_, rfl, fun _ => h⟩
  | cons event rest =>
    cases event with
    | quiet d => exact ⟨_, rfl, fun _ => h⟩
    | failure e => exact ⟨_, rfl, fun _ => h⟩
    | packet p =>
      obtain ⟨q, later, hq, hi, hc⟩ := h
      obtain ⟨rfl, -⟩ := List.cons.inj hq
      obtain ⟨number, hf⟩ := feed_of_stray hi hc
      refine ⟨.invalidSequence 0 number, by rw [readAnswer, hf], fun hr => by cases hr⟩

/-- What reading an answer on a channel brings when messages spell the stream, and the stream that is left. -/
inductive Outcome (channel : UInt32) (command : Command) :
    List Message → Except SecurityKey.Link.Error Bytes → List Packet → Prop
  /-- The answer, a message behind messages that are passed over. -/
  | answer (before : List Message) {after : List Message} {data : Bytes} {left : List Packet}
      (hb : ∀ m ∈ before, m.channel = channel → m.isPassedOver = true)
      (hk : command ≠ .keepalive) (he : command ≠ .error) (hl : Spells left after) :
      Outcome channel command (before ++ ⟨channel, command, data⟩ :: after) (.ok data) left
  /-- An error after which the host tries again, with nothing read but messages that are passed over. -/
  | again (before : List Message) {after : List Message} {e : SecurityKey.Link.Error} {left : List Packet}
      (hb : ∀ m ∈ before, m.channel = channel → m.isPassedOver = true) (hl : Spells left after) :
      Outcome channel command (before ++ after) (.error e) left
  /-- An error in the middle of a message. -/
  | stuck {ms : List Message} {e : SecurityKey.Link.Error} {left : List Packet} (hs : Stuck channel left) :
      Outcome channel command ms (.error e) left
  /-- An error that ends the attempts. -/
  | failed {ms : List Message} {e : SecurityKey.Link.Error} {left : List Packet} (he : e.isRetryable = false) :
      Outcome channel command ms (.error e) left

/-- A message in front that is passed over. -/
theorem Outcome.cons {m : Message} {ms : List Message} {result : Except SecurityKey.Link.Error Bytes}
    {left : List Packet} (hm : m.channel = channel → m.isPassedOver = true)
    (h : Outcome channel command ms result left) : Outcome channel command (m :: ms) result left := by
  have hcons : ∀ {before : List Message}, (∀ x ∈ before, x.channel = channel → x.isPassedOver = true) →
      ∀ x ∈ m :: before, x.channel = channel → x.isPassedOver = true := by
    intro before hb x hx
    rcases List.mem_cons.mp hx with rfl | hx
    · exact hm
    · exact hb x hx
  cases h with
  | answer before hb hk he hl => exact .answer (m :: before) (hcons hb) hk he hl
  | again before hb hl => exact .again (m :: before) (hcons hb) hl
  | stuck hs => exact .stuck hs
  | failed he => exact .failed he

/-- A whole message of the channel is read. -/
theorem outcome_of_message {m : Message} {ms : List Message} {rest : List Event} (hc : m.channel = channel)
    (hs : Spells (packetsIn rest ++ owed) ms)
    (h : Outcome channel command ms (readAnswer command (.idle channel) rest).1
      (packetsIn (readAnswer command (.idle channel) rest).2 ++ owed)) :
    let reading := if m.command = .keepalive then readAnswer command (.idle channel) rest
      else if m.command = .error then (.error (reportedError m.data), rest)
      else if m.command = command then (.ok m.data, rest)
      else (.error .invalidCommand, rest)
    Outcome channel command (m :: ms) reading.1 (packetsIn reading.2 ++ owed) := by
  by_cases hk : m.command = .keepalive
  · simp only [if_pos hk]
    exact h.cons fun _ => by simp [Message.isPassedOver, hk]
  by_cases he : m.command = .error
  · simp only [if_neg hk, if_pos he]
    by_cases hr : (reportedError m.data).isRetryable = true
    · refine .again [m] (fun x hx _ => ?_) hs
      obtain rfl := List.mem_singleton.mp hx
      simp [Message.isPassedOver, he, hr]
    · exact .failed (Bool.eq_false_iff.mpr hr)
  simp only [if_neg hk, if_neg he]
  by_cases hm : m.command = command
  · rw [if_pos hm]
    obtain ⟨_, _, data⟩ := m
    subst hc hm
    exact .answer [] (by simp) hk he hs
  · rw [if_neg hm]
    exact .failed rfl

/-- Reading an answer from a stream that messages spell, between messages and in the middle of one. -/
theorem readAnswer_outcome (events : List Event) :
    (∀ {ms : List Message}, Spells (packetsIn events ++ owed) ms →
      Outcome channel command ms (readAnswer command (.idle channel) events).1
        (packetsIn (readAnswer command (.idle channel) events).2 ++ owed)) ∧
    ∀ {m : Message} {ms : List Message} {r : Reassembler} {later : List Packet}, Completes m r later →
      m.channel = channel → (∀ q ∈ later, q.isInitial = false ∧ q.channel = channel) → (∀ x ∈ ms, x.Fits) →
      packetsIn events ++ owed = later ++ wire ms →
      Outcome channel command (m :: ms) (readAnswer command r events).1
        (packetsIn (readAnswer command r events).2 ++ owed) := by
  -- the packets still to come of a message are a stream the host is stuck in once it stops reading
  have hstuck : ∀ {m : Message} {ms : List Message} {r : Reassembler} {later stream : List Packet},
      Completes m r later → (∀ q ∈ later, q.isInitial = false ∧ q.channel = channel) → stream = later ++ wire ms →
      Stuck channel stream := by
    intro m ms r later stream hc hl hs
    obtain ⟨p, rest, rfl⟩ : ∃ p rest, later = p :: rest := by cases hc <;> exact ⟨_, _, rfl⟩
    exact ⟨p, rest ++ wire ms, hs, hl p (List.mem_cons_self ..)⟩
  induction events with
  | nil =>
    refine ⟨fun hs => .again [] (by simp) hs, fun hc _ hl _ he => ?_⟩
    exact .stuck (hstuck hc hl he)
  | cons event rest ih =>
    obtain ⟨ihIdle, ihPending⟩ := ih
    cases event with
    | quiet d =>
      refine ⟨fun hs => .again [] (by simp) hs, fun hc _ hl _ he => ?_⟩
      exact .stuck (hstuck hc hl he)
    | failure e =>
      refine ⟨fun hs => .again [] (by simp) hs, fun hc _ hl _ he => ?_⟩
      exact .stuck (hstuck hc hl he)
    | packet p =>
      -- the packet belongs to a message of the channel that is to be heard with `later`
      have hpending : ∀ {m : Message} {ms : List Message} {r : Reassembler} {later : List Packet},
          Completes m r (p :: later) → m.channel = channel →
          (∀ q ∈ later, q.isInitial = false ∧ q.channel = channel) → (∀ x ∈ ms, x.Fits) →
          packetsIn rest ++ owed = later ++ wire ms →
          Outcome channel command (m :: ms) (readAnswer command r (.packet p :: rest)).1
            (packetsIn (readAnswer command r (.packet p :: rest)).2 ++ owed) := by
        intro m ms r later hc hm hl hf he
        cases hc with
        | last h =>
          have hs : Spells (packetsIn rest ++ owed) ms := ⟨hf, [], by simp, he⟩
          rw [readAnswer, h, hm]
          exact outcome_of_message hm hs (ihIdle hs)
        | more h hr =>
          rw [readAnswer, h]
          exact ihPending hr hm hl hf he
      refine ⟨fun {ms} hs => ?_, fun {m ms r later} hc hm hl hf he => ?_⟩
      · have hs : Spells (p :: (packetsIn rest ++ owed)) ms := hs
        rcases hs.cons_cases with ⟨hi, hs⟩ | ⟨m, after, later, rfl, hm, hp, hl, he, hs'⟩
        · by_cases hp : p.channel = channel
          · obtain ⟨number, hf⟩ := feed_of_stray hi hp
            rw [readAnswer, hf]
            exact .failed rfl
          · rw [readAnswer, feed_of_other hp]
            exact ihIdle hs
        · by_cases hc : m.channel = channel
          · have hcompletes := completes_toPackets (Message.toPackets_of_fits (hs.fits m (List.mem_cons_self ..)))
            rw [hm, hc] at hcompletes
            rw [hc] at hl
            exact hpending hcompletes hc hl hs'.fits he
          · rw [readAnswer, feed_of_other (by rwa [hp])]
            exact (ihIdle hs').cons fun h => absurd h hc
      · obtain ⟨q, others, rfl⟩ : ∃ q others, later = q :: others := by cases hc <;> exact ⟨_, _, rfl⟩
        have he : p :: (packetsIn rest ++ owed) = q :: (others ++ wire ms) := he
        obtain ⟨rfl, hrest⟩ := List.cons.inj he
        exact hpending hc hm (fun q hq => hl q (List.mem_cons_of_mem _ hq)) hf hrest

end Link

end SecurityKey.Hid
