import SecurityKey.Hid.Link
import SecurityKey.Proofs.Action

/-!
# Runs of a link

What each action of a link does to a link, one equation an action. Proofs about links take runs apart with these
equations and do not look into the actions again.
-/

namespace SecurityKey.Hid.Link

variable {δ : Type} (device : Device δ) (config : Config)

/-- The first of the packets to write. -/
theorem run_writePackets_cons (total written elapsed : Nat) (p : Packet) (rest : List Packet) (l : Link δ) :
    writePackets device config total written elapsed (p :: rest) l =
      if config.writeTimeout ≤ elapsed then
        (.error (.enqueue ("wrote " ++ toString written ++ " of " ++ toString total ++ " packets within " ++
          durationText config.writeTimeout)), l)
      else
        let w := device p l.device
        let l := { l with device := w.device, inbox := l.inbox ++ w.events }
        match w.result with
        | .error e => (.error (enqueueError e), l)
        | .ok () => writePackets device config total (written + 1) (elapsed + w.elapsed) rest l := by
  rw [writePackets]
  by_cases h : config.writeTimeout ≤ elapsed
  · rw [if_pos h, if_pos h]
    rfl
  · rw [if_neg h, if_neg h]
    simp only [Action.run_bind, Action.run_get, Action.run_set]
    split <;> simp_all

/-- The link once the device was given a packet. -/
def give (p : Packet) (l : Link δ) : Link δ :=
  { l with device := (device p l.device).device, inbox := l.inbox ++ (device p l.device).events }

variable {device config} in
/-- Whatever the packets in a part of a message do, one after the other, the packets written of a message do. All of
them are written if and only if writing succeeds. -/
theorem writePackets_parts {R : List Packet → Link δ → Link δ → Prop} (hnil : ∀ l, R [] l l)
    (herror : ∀ p l e, (device p l.device).result = .error e → R [] l (l.give device p))
    (hok : ∀ p part l l', (device p l.device).result = .ok () → R part (l.give device p) l' → R (p :: part) l l')
    {total : Nat} (packets : List Packet) :
    ∀ {written elapsed : Nat} {l l' : Link δ} {result : Except SecurityKey.Link.Error Unit},
      writePackets device config total written elapsed packets l = (result, l') →
      ∃ part, part <+: packets ∧ R part l l' ∧ (result = .ok () ↔ part = packets) := by
  induction packets with
  | nil =>
    intro written elapsed l l' result h
    obtain ⟨rfl, rfl⟩ := Prod.mk.inj h
    exact ⟨[], List.prefix_rfl, hnil l, by simp⟩
  | cons p rest ih =>
    intro written elapsed l l' result h
    rw [run_writePackets_cons] at h
    split at h
    · obtain ⟨rfl, rfl⟩ := Prod.mk.inj h
      exact ⟨[], List.nil_prefix, hnil l, by simp⟩
    · simp only at h
      split at h
      · rename_i e he
        obtain ⟨rfl, rfl⟩ := Prod.mk.inj h
        exact ⟨[], List.nil_prefix, herror p l e he, by simp⟩
      · rename_i he
        obtain ⟨part, hp, hR, hr⟩ := ih h
        exact ⟨p :: part, (List.prefix_cons_inj p).mpr hp, hok p part l l' he hR, by rw [hr]; simp⟩

/-- A message that is sent. -/
theorem run_send (m : Message) (l : Link δ) : send device config m l =
    match m.toPackets with
    | .error e => (.error e, l)
    | .ok packets => writePackets device config packets.length 0 0 packets l := by
  unfold send
  cases m.toPackets <;> rfl

/-- A handshake. -/
theorem run_handshake (l : Link δ) : handshake device config l =
    let nonce := config.nonce l.handshakes
    match send device config ⟨broadcastChannel, .init, nonce.val⟩
      { l with channel := .closed, handshakes := l.handshakes + 1 } with
    | (.error e, l) => (.error e, l)
    | (.ok (), l) =>
      match readAllocation nonce config.initTimeout (.idle broadcastChannel) l.inbox with
      | (.error e, inbox) => (.error e, { l with inbox })
      | (.ok a, inbox) => (.ok a, { l with inbox, channel := .allocated a }) := by
  unfold handshake
  simp only [Action.run_bind, Action.run_get, Action.run_set]
  rcases send device config ⟨broadcastChannel, .init, (config.nonce l.handshakes).val⟩
    { l with channel := .closed, handshakes := l.handshakes + 1 } with ⟨e | x, t⟩
  · rfl
  · simp only
    split <;> simp_all [Action.run_bind]

/-- A message and its answer. -/
theorem run_exchange (channel : UInt32) (command : Command) (payload : Bytes) (l : Link δ) :
    exchange device config channel command payload l =
      match send device config ⟨channel, command, payload⟩ l with
      | (.error e, l) => (.error e, l)
      | (.ok (), l) =>
        ((readAnswer command (.idle channel) l.inbox).1,
          { l with inbox := (readAnswer command (.idle channel) l.inbox).2 }) := by
  unfold exchange
  simp only [Action.run_bind, Action.run_get, Action.run_set]
  rcases send device config ⟨channel, command, payload⟩ l with ⟨e | x, t⟩
  · rfl
  · simp only
    cases (readAnswer command (.idle channel) t.inbox).1 <;> rfl

/-- The channel to use. -/
theorem run_ensureChannel (l : Link δ) : ensureChannel device config l =
    match l.channel with
    | .allocated a => (.ok a.channel, l)
    | .stale =>
      match handshake device config l with
      | (.error e, l) => (.error e, l)
      | (.ok a, l) => (.ok a.channel, l)
    | .closed => (.error .notConnected, l) := by
  unfold ensureChannel
  rw [Action.run_bind, Action.run_get]
  simp only
  cases l.channel with
  | closed => rfl
  | stale =>
    simp only [Action.run_bind]
    rcases handshake device config l with ⟨e | x, t⟩ <;> rfl
  | allocated a => rfl

/-- One attempt. -/
theorem run_attempt (command : Command) (payload : Bytes) (l : Link δ) :
    attempt device config command payload l =
      match ensureChannel device config l with
      | (.error e, l) => (.error e, l)
      | (.ok channel, l) => exchange device config channel command payload l := by
  unfold attempt
  rw [Action.run_bind]
  rcases ensureChannel device config l with ⟨e | x, t⟩ <;> rfl

/-- One attempt on an open channel. -/
theorem run_attempt_allocated {l : Link δ} {a : Allocation} (h : l.channel = .allocated a) (command : Command)
    (payload : Bytes) :
    attempt device config command payload l = exchange device config a.channel command payload l := by
  rw [run_attempt, run_ensureChannel, h]

/-- One attempt and what follows from it. -/
theorem run_attemptOr (again : Action (Link δ) SecurityKey.Link.Error Bytes) (command : Command) (payload : Bytes)
    (l : Link δ) : attemptOr device config again command payload l =
      match attempt device config command payload l with
      | (.ok data, l) => (.ok data, l)
      | (.error e, l) => if e.isRetryable then again l else (.error e, afterError e l) := by
  unfold attemptOr
  rw [Action.run_bind, Action.run_observe]
  rcases attempt device config command payload l with ⟨e | x, t⟩
  · simp only
    by_cases hr : e.isRetryable
    · rw [if_pos hr, if_pos hr]
    · rw [if_neg hr, if_neg hr]
      rfl
  · rfl

@[simp]
theorem device_afterError (e : SecurityKey.Link.Error) (l : Link δ) : (afterError e l).device = l.device := by
  unfold afterError
  split
  · split <;> rfl
  · rfl

@[simp]
theorem inbox_afterError (e : SecurityKey.Link.Error) (l : Link δ) : (afterError e l).inbox = l.inbox := by
  unfold afterError
  split
  · split <;> rfl
  · rfl

/-- An attempt that brings an answer is the last one. -/
theorem transactWith_of_ok {command : Command} {payload data : Bytes} {l l' : Link δ}
    (h : attempt device config command payload l = (.ok data, l')) (retries : Nat) :
    transactWith device config command payload retries l = (.ok data, l') := by
  cases retries <;> rw [transactWith, run_attemptOr, h]

/-- Giving up what is under way. -/
theorem run_cancel (l : Link δ) : cancel device config l =
    match l.channel with
    | .allocated a => send device config ⟨a.channel, .cancel, []⟩ l
    | _ => (.ok (), l) := by
  unfold cancel
  rw [Action.run_bind, Action.run_get]
  simp only
  cases l.channel <;> rfl

/-! ## Channels and errors -/

variable {device config} {l l' : Link δ}

/-- A message does not change the channel. -/
theorem channel_send {m : Message} {result : Except SecurityKey.Link.Error Unit}
    (h : send device config m l = (result, l')) : l'.channel = l.channel := by
  rw [run_send] at h
  split at h
  · obtain ⟨-, rfl⟩ := Prod.mk.inj h
    rfl
  · obtain ⟨part, -, hc, -⟩ := writePackets_parts (R := fun _ l l' => l'.channel = l.channel)
      (fun l => rfl) (fun p l e he => rfl) (fun p part l l' he hl => hl) _ h
    exact hc

/-- Nothing that goes wrong while packets are written is tried again. -/
theorem isRetryable_writePackets {total : Nat} {packets : List Packet} {e : SecurityKey.Link.Error} :
    ∀ {written elapsed : Nat} {l : Link δ},
      writePackets device config total written elapsed packets l = (.error e, l') → e.isRetryable = false := by
  induction packets with
  | nil =>
    intro written elapsed l h
    cases (Prod.mk.inj h).1
  | cons p rest ih =>
    intro written elapsed l h
    rw [run_writePackets_cons] at h
    split at h
    · obtain ⟨he, -⟩ := Prod.mk.inj h
      obtain rfl := Except.error.inj he
      rfl
    · simp only at h
      split at h
      · rename_i e' _
        obtain ⟨he, -⟩ := Prod.mk.inj h
        obtain rfl := Except.error.inj he
        cases e' <;> rfl
      · exact ih h

/-- Nothing that goes wrong while a message is sent is tried again. -/
theorem isRetryable_send {m : Message} {e : SecurityKey.Link.Error} (h : send device config m l = (.error e, l')) :
    e.isRetryable = false := by
  rw [run_send] at h
  split at h
  · rename_i e' hm
    obtain ⟨he, -⟩ := Prod.mk.inj h
    obtain rfl := Except.error.inj he
    unfold Message.toPackets at hm
    split at hm
    · obtain rfl := Except.error.inj hm
      rfl
    · cases hm
  · exact isRetryable_writePackets h

variable (device config) in
/-- An exchange does not change the channel. -/
theorem channel_exchange (channel : UInt32) (command : Command) (payload : Bytes) (l : Link δ) :
    (exchange device config channel command payload l).2.channel = l.channel := by
  rw [run_exchange]
  split
  · rename_i h
    exact channel_send h
  · rename_i t h
    have ht : t.channel = l.channel := channel_send h
    exact ht

variable (device config) in
/-- A handshake opens the channel that it brings, and leaves the link closed where it fails. -/
theorem channel_handshake (l : Link δ) :
    (handshake device config l).2.channel =
      match (handshake device config l).1 with
      | .ok a => .allocated a
      | .error _ => .closed := by
  rw [run_handshake]
  simp only
  split
  · rename_i h
    exact channel_send h
  · rename_i h
    split
    · exact channel_send h
    · rfl

/-- Nothing is answered on a closed link. -/
theorem transactWith_closed (hc : l.channel = .closed) (command : Command) (payload : Bytes) (retries : Nat) :
    transactWith device config command payload retries l = (.error .notConnected, l) := by
  have ha : attempt device config command payload l = (.error .notConnected, l) := by
    rw [run_attempt, run_ensureChannel, hc]
  have he : afterError .notConnected l = l := by
    unfold afterError
    rw [hc]
  cases retries <;> rw [transactWith, run_attemptOr, ha] <;> simp [SecurityKey.Link.Error.isRetryable, he]

/-- Whoever gets an answer has a channel first, and all attempts are made on it. -/
theorem transactWith_channel {command : Command} {payload data : Bytes} {retries : Nat}
    (h : (transactWith device config command payload retries l).1 = .ok data) :
    ∃ a l₁, ensureChannel device config l = (.ok a.channel, l₁) ∧ l₁.channel = .allocated a ∧
      transactWith device config command payload retries l =
        transactWith device config command payload retries l₁ := by
  have hsame : ∀ {a : Allocation} {l₁ : Link δ}, ensureChannel device config l = (.ok a.channel, l₁) →
      l₁.channel = .allocated a → transactWith device config command payload retries l =
        transactWith device config command payload retries l₁ := by
    intro a l₁ he hc
    have ha : attempt device config command payload l = attempt device config command payload l₁ := by
      rw [run_attempt_allocated device config hc, run_attempt, he]
    cases retries <;> rw [transactWith, run_attemptOr, run_attemptOr, ha]
  cases hc : l.channel with
  | closed =>
    rw [transactWith_closed hc] at h
    cases h
  | allocated a =>
    have he : ensureChannel device config l = (.ok a.channel, l) := by rw [run_ensureChannel, hc]
    exact ⟨a, l, he, hc, hsame he hc⟩
  | stale =>
    have hh := channel_handshake device config l
    rcases hr : handshake device config l with ⟨e | a, l₁⟩
    · rw [hr] at hh
      have he : ensureChannel device config l = (.error e, l₁) := by rw [run_ensureChannel, hc, hr]
      have ha : attempt device config command payload l = (.error e, l₁) := by rw [run_attempt, he]
      cases retries with
      | zero =>
        rw [transactWith, run_attemptOr, ha] at h
        simp only at h
        split at h <;> cases h
      | succ retries =>
        rw [transactWith, run_attemptOr, ha] at h
        simp only at h
        split at h
        · rw [transactWith_closed hh] at h
          cases h
        · cases h
    · rw [hr] at hh
      have he : ensureChannel device config l = (.ok a.channel, l₁) := by rw [run_ensureChannel, hc, hr]
      exact ⟨a, l₁, he, hh, hsame he hh⟩

end SecurityKey.Hid.Link
