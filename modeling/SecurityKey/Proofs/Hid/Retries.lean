import SecurityKey.Proofs.Hid.Scripted

/-!
# Messages that are tried again

A message that fails for want of time or of a free channel is tried again, on a new channel where the old one is stale.
A handshake gives up the old channel before it looks for a new one, so after a handshake that fails nothing is left to
try again with.

- `journaling device` is a device together with all that it let the host read, and `Link.eventsRead` is what the host
  has read of it between two links;
- `Link.freshAttempt` is an attempt as it is meant, with a handshake wherever no channel is open, and
  `Link.RetryLaw` says what is expected of several of them: a timeout when all fail, the first answer otherwise, and
  no disconnection that was not read;
- on an open channel the law holds (`Link.retryLaw_of_allocated`), and after a handshake as far as it brings a channel;
- so it fails exactly where the first handshake on a stale channel fails in a way that is tried again
  (`Link.retryLaw_iff`).
-/

namespace SecurityKey.Hid

/-! ## Devices with a journal -/

/-- A device and all the events that it let the host read. -/
structure Journaled (δ : Type) where
  device : δ
  released : List Event

/-- The device together with a journal of the events. -/
def journaling {δ : Type} (device : Device δ) : Device (Journaled δ) := fun p j =>
  let w := device p j.device
  { result := w.result
    elapsed := w.elapsed
    events := w.events
    device := { device := w.device, released := j.released ++ w.events } }

namespace Link

variable {δ : Type} {device : Device δ} {config : Config}

/-- What the host has read between two links: of the events that were unread or have been released since, those that
are not unread now. -/
def eventsRead (l l' : Link (Journaled δ)) : List Event :=
  let brought := l.inbox ++ l'.device.released.drop l.device.released.length
  brought.take (brought.length - l'.inbox.length)

/-- The host has read the given events, and left the others. -/
def Reads (l l' : Link (Journaled δ)) (read : List Event) : Prop :=
  ∃ released, l'.device.released = l.device.released ++ released ∧ l.inbox ++ released = read ++ l'.inbox

namespace Reads

variable {l l' l'' : Link (Journaled δ)} {read read' : List Event}

theorem refl (l : Link (Journaled δ)) : Reads l l [] := ⟨[], by simp, by simp⟩

theorem trans (h : Reads l l' read) (h' : Reads l' l'' read') : Reads l l'' (read ++ read') := by
  obtain ⟨released, hr, hi⟩ := h
  obtain ⟨released', hr', hi'⟩ := h'
  refine ⟨released ++ released', by rw [hr', hr, List.append_assoc], ?_⟩
  rw [← List.append_assoc, hi, List.append_assoc, hi', List.append_assoc]

/-- Only device and inbox tell what was read. -/
theorem congr (h : Reads l l' read) (hd : l''.device = l'.device) (hi : l''.inbox = l'.inbox) : Reads l l'' read := by
  obtain ⟨released, hr, hl⟩ := h
  exact ⟨released, by rw [hd, hr], by rw [hi, hl]⟩

/-- What was read is known from the two links. -/
theorem eventsRead (h : Reads l l' read) : eventsRead l l' = read := by
  obtain ⟨released, hr, hi⟩ := h
  simp only [Link.eventsRead, hr, List.drop_left, hi, List.length_append, Nat.add_sub_cancel, List.take_left]

end Reads

/-- Writing reads nothing. -/
theorem reads_send {m : Message} {l l' : Link (Journaled δ)} {result : Except SecurityKey.Link.Error Unit}
    (h : send (journaling device) config m l = (result, l')) : Reads l l' [] := by
  have hgive : ∀ p (l : Link (Journaled δ)), Reads l (l.give (journaling device) p) [] := fun p l => ⟨_, rfl, rfl⟩
  rw [run_send] at h
  split at h
  · obtain ⟨-, rfl⟩ := Prod.mk.inj h
    exact .refl l
  · obtain ⟨part, -, hr, -⟩ := writePackets_parts (R := fun _ l l' => Reads l l' [])
      (fun l => .refl l) (fun p l e _ => hgive p l) (fun p part l l' _ hl => (hgive p l).trans hl) _ h
    exact hr

/-- Whatever keeps packets from being written is told as that. -/
theorem error_writePackets {total : Nat} {packets : List Packet} {e : SecurityKey.Link.Error} {l' : Link δ} :
    ∀ {written elapsed : Nat} {l : Link δ},
      writePackets device config total written elapsed packets l = (.error e, l') → ∃ reason, e = .enqueue reason := by
  induction packets with
  | nil =>
    intro written elapsed l h
    cases (Prod.mk.inj h).1
  | cons p rest ih =>
    intro written elapsed l h
    rw [run_writePackets_cons] at h
    split at h
    · exact ⟨_, (Except.error.inj (Prod.mk.inj h).1).symm⟩
    · simp only at h
      split at h
      · rename_i e' _
        obtain rfl := Except.error.inj (Prod.mk.inj h).1
        cases e' <;> exact ⟨_, rfl⟩
      · exact ih h

/-- A message that cannot be sent tells nothing of a disconnection. -/
theorem ne_notConnected_send {m : Message} {l l' : Link δ} {e : SecurityKey.Link.Error}
    (h : send device config m l = (.error e, l')) : e ≠ .notConnected := by
  rw [run_send] at h
  split at h
  · rename_i e' hm
    obtain rfl := Except.error.inj (Prod.mk.inj h).1
    unfold Message.toPackets at hm
    split at hm
    · obtain rfl := Except.error.inj hm
      exact nofun
    · cases hm
  · obtain ⟨reason, rfl⟩ := error_writePackets h
    exact nofun

/-! ## Failures that are read -/

/-- What was read explains a result: a failure that was read is the result, and a disconnection was read. -/
structure Explains {α : Type} (read : List Event) (result : Except SecurityKey.Link.Error α) : Prop where
  failure : ∀ e, .failure e ∈ read → result = .error e
  disconnection : result = .error .notConnected → .failure .notConnected ∈ read

/-- Another event in front that is no failure. -/
theorem Explains.cons {α : Type} {event : Event} {read : List Event} {result : Except SecurityKey.Link.Error α}
    (h : Explains read result) (he : ∀ e, event ≠ .failure e) : Explains (event :: read) result where
  failure e hm := by
    rcases List.mem_cons.mp hm with rfl | hm
    · exact absurd rfl (he e)
    · exact h.failure e hm
  disconnection hr := List.mem_cons_of_mem _ (h.disconnection hr)

/-- Nothing that was read, and a result that is no disconnection. -/
theorem Explains.nil {α : Type} {result : Except SecurityKey.Link.Error α} (h : result ≠ .error .notConnected) :
    Explains [] result where
  failure e hm := by cases hm
  disconnection hr := absurd hr h

/-- A failure that ends the reading. -/
theorem Explains.failed {α : Type} (e : SecurityKey.Link.Error) :
    Explains [.failure e] (.error e : Except SecurityKey.Link.Error α) where
  failure e' hm := by
    obtain rfl := Event.failure.inj (List.mem_singleton.mp hm)
    rfl
  disconnection hr := by
    obtain rfl := Except.error.inj hr
    exact List.mem_singleton.mpr rfl

/-- No packet tells of a disconnection. -/
theorem feed_ne_notConnected {r r' : Reassembler} {p : Packet} {e : SecurityKey.Link.Error}
    (h : r.feed p = (.error e, r')) : e ≠ .notConnected := by
  have hstart : ∀ c p, Reassembler.start c p ≠ .error .notConnected := by
    intro c p
    unfold Reassembler.start
    repeat' split
    all_goals
      intro h
      cases h
  have hresume : ∀ c q p, Reassembler.resume c q p ≠ .error .notConnected := by
    intro c q p
    unfold Reassembler.resume
    simp only
    repeat' split
    all_goals
      intro h
      cases h
  rintro rfl
  unfold Reassembler.feed at h
  simp only at h
  split at h
  · cases (Prod.mk.inj h).1
  · rename_i e' he
    obtain rfl := Except.error.inj (Prod.mk.inj h).1
    split at he
    · exact hstart _ _ he
    · exact hresume _ _ _ he

/-- No message tells of a disconnection. -/
theorem reportedError_ne_notConnected (payload : Bytes) : reportedError payload ≠ .notConnected := by
  unfold reportedError
  repeat' split
  all_goals exact nofun

/-- No allocation tells of a disconnection. -/
theorem parse_ne_notConnected (nonce : Bytes.Sized 8) (data : Bytes) :
    Allocation.parse nonce data ≠ .error .notConnected := by
  unfold Allocation.parse
  repeat' split
  all_goals exact nofun

/-- A reader takes events from the front, and what it takes explains its result. -/
def Accounts {α : Type} (events : List Event) (run : Except SecurityKey.Link.Error α × List Event) : Prop :=
  ∃ read, events = read ++ run.2 ∧ Explains read run.1

namespace Accounts

variable {α : Type} {events : List Event} {run : Except SecurityKey.Link.Error α × List Event}

/-- Reading ends with a result that is no disconnection. -/
theorem done {result : Except SecurityKey.Link.Error α} (h : result ≠ .error .notConnected) :
    Accounts events (result, events) := ⟨[], rfl, .nil h⟩

/-- Reading ends with a failure. -/
theorem failed (e : SecurityKey.Link.Error) :
    Accounts (.failure e :: events) ((.error e : Except SecurityKey.Link.Error α), events) :=
  ⟨[.failure e], rfl, .failed e⟩

theorem cons {event : Event} (he : ∀ e, event ≠ .failure e) (h : Accounts events run) :
    Accounts (event :: events) run := by
  obtain ⟨read, hr, hx⟩ := h
  exact ⟨event :: read, by rw [hr, List.cons_append], hx.cons he⟩

theorem packet (p : Packet) (h : Accounts events run) : Accounts (.packet p :: events) run :=
  h.cons (by rintro _ ⟨⟩)

theorem quiet (milliseconds : Nat) (h : Accounts events run) : Accounts (.quiet milliseconds :: events) run :=
  h.cons (by rintro _ ⟨⟩)

end Accounts

/-- What is read of an answer explains it. -/
theorem accounts_readAnswer (command : Command) (r : Reassembler) (events : List Event) :
    Accounts events (readAnswer command r events) := by
  fun_induction readAnswer command r events with
  | case1 => exact .done (by rintro ⟨⟩)
  | case2 => exact .quiet _ (.done (by rintro ⟨⟩))
  | case3 => exact .failed _
  | case4 _ _ _ _ _ hf => exact .packet _ (.done fun he => feed_ne_notConnected hf (Except.error.inj he))
  | case5 _ _ _ _ _ ih => exact ih.packet _
  | case6 _ _ _ _ _ _ _ ih => exact ih.packet _
  | case7 => exact .packet _ (.done fun he => reportedError_ne_notConnected _ (Except.error.inj he))
  | case8 => exact .packet _ (.done (by rintro ⟨⟩))
  | case9 => exact .packet _ (.done (by rintro ⟨⟩))

/-- What is read of an allocation explains it. -/
theorem accounts_readAllocation (nonce : Bytes.Sized 8) (remaining : Nat) (r : Reassembler) (events : List Event) :
    Accounts events (readAllocation nonce remaining r events) := by
  fun_induction readAllocation nonce remaining r events with
  | case1 => exact .done (by rintro ⟨⟩)
  | case2 => exact .done (by rintro ⟨⟩)
  | case3 _ _ _ _ _ ih => exact ih.quiet _
  | case4 => exact .failed _
  | case5 _ _ _ _ _ _ _ hf => exact .packet _ (.done fun he => feed_ne_notConnected hf (Except.error.inj he))
  | case6 _ _ _ _ _ _ _ ih => exact ih.packet _
  | case7 => exact .packet _ (.done (parse_ne_notConnected _ _))
  | case8 _ _ _ _ _ _ _ _ _ ih => exact ih.packet _

/-- What is read of a sent message's answer explains the exchange. -/
theorem exchange_explained (device : Device δ) (config : Config) (channel : UInt32) (command : Command)
    (payload : Bytes) (l : Link (Journaled δ)) :
    ∃ read, Reads l (exchange (journaling device) config channel command payload l).2 read ∧
      Explains read (exchange (journaling device) config channel command payload l).1 := by
  rw [run_exchange]
  rcases hs : send (journaling device) config ⟨channel, command, payload⟩ l with ⟨e | x, t⟩
  · exact ⟨[], reads_send hs, .nil fun he => ne_notConnected_send hs (Except.error.inj he)⟩
  · obtain ⟨read, hr, hx⟩ := accounts_readAnswer command (.idle channel) t.inbox
    exact ⟨read, (reads_send hs).trans ⟨[], by simp, by simpa using hr⟩, hx⟩

/-- What is read of an allocation explains the handshake. -/
theorem handshake_explained (device : Device δ) (config : Config) (l : Link (Journaled δ)) :
    ∃ read, Reads l (handshake (journaling device) config l).2 read ∧
      Explains read (handshake (journaling device) config l).1 := by
  have hclose : Reads l { l with channel := .closed, handshakes := l.handshakes + 1 } [] := (Reads.refl l).congr rfl rfl
  rw [run_handshake]
  simp only
  rcases hs : send (journaling device) config ⟨broadcastChannel, .init, (config.nonce l.handshakes).val⟩
    { l with channel := .closed, handshakes := l.handshakes + 1 } with ⟨e | x, t⟩
  · exact ⟨[], hclose.trans (reads_send hs), .nil fun he => ne_notConnected_send hs (Except.error.inj he)⟩
  · obtain ⟨read, hr, hx⟩ := accounts_readAllocation (config.nonce l.handshakes) config.initTimeout
      (.idle broadcastChannel) t.inbox
    simp only
    rcases ha : readAllocation (config.nonce l.handshakes) config.initTimeout (.idle broadcastChannel) t.inbox with
      ⟨e | a, inbox⟩
    all_goals
      rw [ha] at hr hx
      exact ⟨read, (hclose.trans (reads_send hs)).trans ⟨[], by simp, by simpa using hr⟩, hx⟩

/-! ## Attempts -/

variable (device config) (command : Command) (payload : Bytes)

/-- An attempt at a message as it is meant, with a handshake first wherever no channel is open. -/
def freshAttempt : Action (Link δ) SecurityKey.Link.Error Bytes := do
  match (← get).channel with
  | .allocated a => exchange device config a.channel command payload
  | _ =>
    let a ← handshake device config
    exchange device config a.channel command payload

/-- The results of attempts in a row, and the link after them. -/
def attempts : Nat → Link δ → List (Except SecurityKey.Link.Error Bytes) × Link δ
  | 0, l => ([], l)
  | n + 1, l =>
    let (r, l) := freshAttempt device config command payload l
    let (rs, l) := attempts n l
    (r :: rs, l)

/-- Whether a result is a failure that another attempt may mend. -/
def FailsForNow (r : Except SecurityKey.Link.Error Bytes) : Prop := ∃ e, r = .error e ∧ e.isRetryable = true

/-- What is expected of a message that is tried again. -/
structure RetryLaw (l : Link (Journaled δ)) : Prop where
  /-- If all attempts fail for now, they are all made and the message fails for want of time. -/
  exhausted : (∀ r ∈ (attempts (journaling device) config command payload config.maxAttempts l).1, FailsForNow r) →
    transact (journaling device) config command payload l =
      (.error .timeout, (attempts (journaling device) config command payload config.maxAttempts l).2)
  /-- The first answer after such failures is the answer. -/
  answered : ∀ n < config.maxAttempts, ∀ data l',
    (∀ r ∈ (attempts (journaling device) config command payload n l).1, FailsForNow r) →
    freshAttempt (journaling device) config command payload
      (attempts (journaling device) config command payload n l).2 = (.ok data, l') →
    transact (journaling device) config command payload l = (.ok data, l')
  /-- Nobody is told of a disconnection that was not read. -/
  connected : (transact (journaling device) config command payload l).1 = .error .notConnected →
    .failure .notConnected ∈ eventsRead l (transact (journaling device) config command payload l).2

variable {device config command payload} {l l' : Link δ} {a : Allocation}

/-! ## Attempts on an open channel -/

/-- On an open channel an attempt is as it is meant. -/
theorem freshAttempt_allocated (hc : l.channel = .allocated a) :
    freshAttempt device config command payload l = exchange device config a.channel command payload l := by
  rw [freshAttempt, Action.run_bind, Action.run_get]
  simp only [hc]

variable (command payload) in
/-- Where a handshake brings a channel, the attempt goes on there. -/
theorem freshAttempt_stale (hc : l.channel = .stale) (hh : handshake device config l = (.ok a, l')) :
    freshAttempt device config command payload l = freshAttempt device config command payload l' ∧
      attempt device config command payload l = attempt device config command payload l' ∧
      l'.channel = .allocated a := by
  have hc' : l'.channel = .allocated a := by
    have h := channel_handshake device config l
    rwa [hh] at h
  refine ⟨?_, ?_, hc'⟩
  · rw [freshAttempt_allocated hc', freshAttempt, Action.run_bind, Action.run_get]
    simp only [hc]
    rw [Action.bind_of_ok hh]
  · rw [run_attempt_allocated device config hc', run_attempt, run_ensureChannel, hc]
    simp only [hh]

variable (command payload) in
/-- Where a handshake fails, so does the attempt. -/
theorem freshAttempt_of_error {e : SecurityKey.Link.Error} (hc : l.channel = .stale)
    (hh : handshake device config l = (.error e, l')) :
    freshAttempt device config command payload l = (.error e, l') ∧
      attempt device config command payload l = (.error e, l') ∧ l'.channel = .closed := by
  have hc' : l'.channel = .closed := by
    have h := channel_handshake device config l
    rwa [hh] at h
  refine ⟨?_, ?_, hc'⟩
  · rw [freshAttempt, Action.run_bind, Action.run_get]
    simp only [hc]
    rw [Action.bind_of_error hh]
  · rw [run_attempt, run_ensureChannel, hc]
    simp only [hh]

variable (device config command payload) in
/-- An attempt on an open channel leaves it open. -/
theorem channel_attempt (hc : l.channel = .allocated a) :
    attempt device config command payload l = freshAttempt device config command payload l ∧
      (freshAttempt device config command payload l).2.channel = .allocated a := by
  rw [freshAttempt_allocated hc, run_attempt_allocated device config hc, channel_exchange]
  exact ⟨rfl, hc⟩

/-- A message goes the same way from two links from which its first attempt does. -/
theorem transact_congr (h : attempt device config command payload l = attempt device config command payload l') :
    transact device config command payload l = transact device config command payload l' := by
  have hsame : ∀ n,
      transactWith device config command payload n l = transactWith device config command payload n l' := by
    intro n
    cases n <;> rw [transactWith, run_attemptOr, run_attemptOr, h]
  exact hsame _

/-- More attempts after the first. -/
theorem attempts_succ (n : Nat) : attempts device config command payload (n + 1) l =
    ((freshAttempt device config command payload l).1 ::
        (attempts device config command payload n (freshAttempt device config command payload l).2).1,
      (attempts device config command payload n (freshAttempt device config command payload l).2).2) := rfl

/-- If all attempts on an open channel fail for now, the message fails for want of time. -/
theorem transactWith_of_failing (n : Nat) (hc : l.channel = .allocated a)
    (h : ∀ r ∈ (attempts device config command payload (n + 1) l).1, FailsForNow r) :
    transactWith device config command payload n l =
      (.error .timeout, (attempts device config command payload (n + 1) l).2) := by
  induction n generalizing l with
  | zero =>
    obtain ⟨hsame, -⟩ := channel_attempt device config command payload hc
    rcases hx : freshAttempt device config command payload l with ⟨r, t⟩
    simp only [hx, attempts] at h ⊢
    obtain ⟨e, rfl, he⟩ := h r (List.mem_cons_self ..)
    rw [transactWith, run_attemptOr, hsame, hx]
    simp only [he, if_true, Action.run_throw]
  | succ n ih =>
    obtain ⟨hsame, hopen⟩ := channel_attempt device config command payload hc
    rw [attempts_succ] at h ⊢
    rcases hx : freshAttempt device config command payload l with ⟨r, t⟩
    rw [hx] at h hopen
    obtain ⟨e, rfl, he⟩ := h r (List.mem_cons_self ..)
    rw [transactWith, run_attemptOr, hsame, hx]
    simp only [he, if_true]
    exact ih hopen fun r hr => h r (List.mem_cons_of_mem _ hr)

/-- The first answer on an open channel is the answer. -/
theorem transactWith_of_answer {data : Bytes} {k n : Nat} (hk : k ≤ n) (hc : l.channel = .allocated a)
    (h : ∀ r ∈ (attempts device config command payload k l).1, FailsForNow r)
    (ha : freshAttempt device config command payload (attempts device config command payload k l).2 =
      (.ok data, l')) :
    transactWith device config command payload n l = (.ok data, l') := by
  induction k generalizing l n with
  | zero =>
    obtain ⟨hsame, -⟩ := channel_attempt device config command payload hc
    exact transactWith_of_ok device config (hsame.trans ha) n
  | succ k ih =>
    obtain ⟨n, rfl⟩ : ∃ m, n = m + 1 := ⟨n - 1, by omega⟩
    obtain ⟨hsame, hopen⟩ := channel_attempt device config command payload hc
    rw [attempts_succ] at h ha
    rcases hx : freshAttempt device config command payload l with ⟨r, t⟩
    rw [hx] at h ha hopen
    obtain ⟨e, rfl, he⟩ := h r (List.mem_cons_self ..)
    rw [transactWith, run_attemptOr, hsame, hx]
    simp only [he, if_true]
    exact ih (by omega) hopen (fun r hr => h r (List.mem_cons_of_mem _ hr)) ha

/-! ## Where the law holds -/

section Law

variable {l l' : Link (Journaled δ)}

/-- A result that is no disconnection, or one that was read on the way. -/
def Told (l : Link (Journaled δ)) (run : Except SecurityKey.Link.Error Bytes × Link (Journaled δ)) : Prop :=
  ∃ read, Reads l run.2 read ∧ (run.1 = .error .notConnected → .failure .notConnected ∈ read)

/-- What comes after more was read. -/
theorem Told.after {run : Except SecurityKey.Link.Error Bytes × Link (Journaled δ)} {read : List Event}
    (h : Told l' run) (hr : Reads l l' read) : Told l run := by
  obtain ⟨read', hr', hx⟩ := h
  exact ⟨read ++ read', hr.trans hr', fun he => List.mem_append_right _ (hx he)⟩

/-- A disconnection is among the events read. -/
theorem Told.connected {run : Except SecurityKey.Link.Error Bytes × Link (Journaled δ)} (h : Told l run)
    (hr : run.1 = .error .notConnected) : .failure .notConnected ∈ eventsRead l run.2 := by
  obtain ⟨read, hreads, hx⟩ := h
  rw [hreads.eventsRead]
  exact hx hr

/-- The error of an action whose failures are explained. -/
theorem Told.ofError {e : SecurityKey.Link.Error} {α : Type} {read : List Event} (hr : Reads l l' read)
    (hx : Explains read (.error e : Except SecurityKey.Link.Error α)) : Told l (.error e, afterError e l') := by
  refine ⟨read, hr.congr (by simp) (by simp), fun he => hx.disconnection ?_⟩
  rw [Except.error.inj he]

/-- On an open channel a disconnection was read, if that holds for what comes after a failure. -/
theorem told_attemptOr {again : Action (Link (Journaled δ)) SecurityKey.Link.Error Bytes}
    (h : ∀ t : Link (Journaled δ), t.channel = .allocated a → Told t (again t)) (hc : l.channel = .allocated a) :
    Told l (attemptOr (journaling device) config again command payload l) := by
  obtain ⟨hsame, hopen⟩ := channel_attempt (journaling device) config command payload hc
  obtain ⟨read, hr, hx⟩ := exchange_explained device config a.channel command payload l
  rw [← freshAttempt_allocated hc] at hr hx
  rw [run_attemptOr, hsame]
  rcases hrun : freshAttempt (journaling device) config command payload l with ⟨e | data, t⟩
  · rw [hrun] at hr hx hopen
    simp only
    split
    · exact (h t hopen).after hr
    · exact .ofError hr hx
  · rw [hrun] at hr
    exact ⟨read, hr, nofun⟩

/-- On an open channel a disconnection was read. -/
theorem told_transactWith (n : Nat) (hc : l.channel = .allocated a) :
    Told l (transactWith (journaling device) config command payload n l) := by
  induction n generalizing l with
  | zero => exact told_attemptOr (fun t _ => ⟨[], .refl t, nofun⟩) hc
  | succ n ih => exact told_attemptOr (fun t ht => ih ht) hc

/-- On an open channel the law holds. -/
theorem retryLaw_of_allocated (hm : 1 ≤ config.maxAttempts) (hc : l.channel = .allocated a) :
    RetryLaw device config command payload l := by
  obtain ⟨n, hn⟩ : ∃ n, config.maxAttempts = n + 1 := ⟨config.maxAttempts - 1, by omega⟩
  have ht : transact (journaling device) config command payload l =
      transactWith (journaling device) config command payload n l := by rw [transact, hn, Nat.add_sub_cancel]
  refine ⟨fun h => ?_, fun k hk data l' h ha => ?_, fun h => ?_⟩
  · rw [hn] at h
    rw [ht, hn]
    exact transactWith_of_failing n hc h
  · rw [ht]
    exact transactWith_of_answer (by omega) hc h ha
  · exact (ht ▸ told_transactWith n hc : Told l _).connected h

/-- Where a handshake brings a channel in place of a stale one, the law holds. -/
theorem retryLaw_of_handshake (hm : 1 ≤ config.maxAttempts) (hc : l.channel = .stale)
    (hh : handshake (journaling device) config l = (.ok a, l')) : RetryLaw device config command payload l := by
  obtain ⟨n, hn⟩ : ∃ n, config.maxAttempts = n + 1 := ⟨config.maxAttempts - 1, by omega⟩
  obtain ⟨hfresh, hattempt, hopen⟩ := freshAttempt_stale command payload hc hh
  obtain ⟨read, hr, -⟩ := handshake_explained device config l
  rw [hh] at hr
  have ht : transact (journaling device) config command payload l =
      transact (journaling device) config command payload l' := transact_congr hattempt
  have hattempts : ∀ k, attempts (journaling device) config command payload (k + 1) l =
      attempts (journaling device) config command payload (k + 1) l' := fun k => by
    rw [attempts_succ, attempts_succ, hfresh]
  have hlaw : RetryLaw device config command payload l' := retryLaw_of_allocated hm hopen
  refine ⟨fun h => ?_, fun k hk data l' h ha => ?_, fun h => ?_⟩
  · rw [hn, hattempts, ← hn] at h ⊢
    exact ht.trans (hlaw.exhausted h)
  · rw [ht]
    cases k with
    | zero => exact hlaw.answered 0 hk data l' nofun (hfresh.symm.trans ha)
    | succ k =>
      rw [hattempts] at h ha
      exact hlaw.answered (k + 1) hk data l' h ha
  · rw [ht] at h ⊢
    have htold : Told l' (transact (journaling device) config command payload l') :=
      told_transactWith (config.maxAttempts - 1) hopen
    exact (htold.after hr).connected h

/-- Where a handshake fails for good, or is the last one, the law holds. -/
theorem retryLaw_of_error {e : SecurityKey.Link.Error} (hm : 1 ≤ config.maxAttempts) (hc : l.channel = .stale)
    (hh : handshake (journaling device) config l = (.error e, l'))
    (he : e.isRetryable = true → config.maxAttempts = 1) : RetryLaw device config command payload l := by
  obtain ⟨n, hn⟩ : ∃ n, config.maxAttempts = n + 1 := ⟨config.maxAttempts - 1, by omega⟩
  obtain ⟨hfresh, hattempt, -⟩ := freshAttempt_of_error command payload hc hh
  obtain ⟨read, hr, hx⟩ := handshake_explained device config l
  rw [hh] at hr hx
  have ht : transact (journaling device) config command payload l =
      if e.isRetryable then (.error .timeout, l') else (.error e, afterError e l') := by
    unfold transact
    cases hret : e.isRetryable with
    | true =>
      rw [he hret, show 1 - 1 = 0 from rfl, transactWith, run_attemptOr, hattempt]
      simp only [hret, if_true, Action.run_throw]
    | false =>
      cases config.maxAttempts - 1 <;>
        · rw [transactWith, run_attemptOr, hattempt]
          simp only [hret, Bool.false_eq_true, if_false]
  -- The first of any attempts is the one whose handshake failed.
  have hfirst : ∀ k, (∀ r ∈ (attempts (journaling device) config command payload (k + 1) l).1, FailsForNow r) →
      e.isRetryable = true := by
    intro k h
    rw [attempts_succ, hfresh] at h
    obtain ⟨_, heq, hret⟩ := h _ (List.mem_cons_self ..)
    cases heq
    exact hret
  refine ⟨fun h => ?_, fun k hk data t h ha => ?_, fun h => ?_⟩
  · rw [hn] at h
    have hret := hfirst n h
    rw [ht, if_pos hret, he hret, attempts_succ, hfresh]
    rfl
  · cases k with
    | zero => cases hfresh.symm.trans ha
    | succ k => exact absurd (he (hfirst k h)) (by omega)
  · have htold : Told l (transact (journaling device) config command payload l) := by
      rw [ht]
      split
      · exact ⟨read, hr, by rintro ⟨⟩⟩
      · exact .ofError hr hx
    exact htold.connected h

/-- After a handshake that fails for now, the message fails for a disconnection that nobody has read. -/
theorem not_retryLaw_of_error {e : SecurityKey.Link.Error} (hm : 2 ≤ config.maxAttempts) (hc : l.channel = .stale)
    (hh : handshake (journaling device) config l = (.error e, l')) (he : e.isRetryable = true) :
    ¬ RetryLaw device config command payload l := by
  intro h
  obtain ⟨n, hn⟩ : ∃ n, config.maxAttempts = n + 2 := ⟨config.maxAttempts - 2, by omega⟩
  obtain ⟨-, hattempt, hclosed⟩ := freshAttempt_of_error command payload hc hh
  obtain ⟨read, hr, hx⟩ := handshake_explained device config l
  rw [hh] at hr hx
  have ht : transact (journaling device) config command payload l = (.error .notConnected, l') := by
    unfold transact
    rw [hn, show n + 2 - 1 = n + 1 from rfl, transactWith, run_attemptOr, hattempt]
    simp only [he, if_true]
    exact transactWith_closed hclosed command payload n
  have hread := h.connected (by rw [ht])
  rw [ht, hr.eventsRead] at hread
  obtain rfl := Except.error.inj (hx.failure _ hread)
  cases he

/-- The law holds for a link that is not closed except where its channel is stale, the first handshake fails for now,
and another attempt is due. -/
theorem retryLaw_iff (hm : 1 ≤ config.maxAttempts) (hc : l.channel ≠ .closed) :
    RetryLaw device config command payload l ↔
      ¬ (l.channel = .stale ∧ 2 ≤ config.maxAttempts ∧
        ∃ e, (handshake (journaling device) config l).1 = .error e ∧ e.isRetryable = true) := by
  constructor
  · rintro h ⟨hs, hm, e, hh, he⟩
    exact not_retryLaw_of_error hm hs (Prod.ext hh rfl) he h
  · intro h
    cases hs : l.channel with
    | closed => exact absurd hs hc
    | allocated a => exact retryLaw_of_allocated hm hs
    | stale =>
      rcases hh : handshake (journaling device) config l with ⟨e | a, l'⟩
      · refine retryLaw_of_error hm hs hh fun he => ?_
        refine Nat.le_antisymm (Nat.le_of_not_lt fun hmany => h ⟨hs, hmany, e, ?_, he⟩) hm
        rw [hh]
      · exact retryLaw_of_handshake hm hs hh

/-! ## A stale link -/

/-- The usual limits, with one nonce for all handshakes. -/
def fixedNonce : Config := .standard fun _ => .zero 8

/-- A link that has lost step with a device that follows a script. -/
def outOfStep (script : List (List Event)) : Link (Journaled (List (List Event))) := ⟨⟨script, []⟩, [], .stale, 1⟩

/-- What tells the host that it has channel 1. -/
def allocating : List Event :=
  let a : Allocation := ⟨.zero 8, 1, 2, 0, 0, 0, 0⟩
  ((⟨broadcastChannel, .init, a.toBytes⟩ : Message).toPackets.toOption.getD []).map .packet

/-- A device that allocates a channel and is silent then. -/
theorem retryLaw_iff_allocating : 1 ≤ fixedNonce.maxAttempts ∧ (outOfStep [allocating]).channel ≠ .closed ∧
    RetryLaw scripted fixedNonce .ping [] (outOfStep [allocating]) := by
  refine ⟨by decide, by decide, (retryLaw_iff (by decide) (by decide)).mpr ?_⟩
  rintro ⟨-, -, e, he, -⟩
  have hok : (handshake (journaling scripted) fixedNonce (outOfStep [allocating])).1.isOk = true := by decide
  rw [he] at hok
  cases hok

/-- A device that stays silent: after one handshake the host hears of a disconnection. -/
theorem not_retryLaw_silent : ¬ RetryLaw scripted fixedNonce .ping [] (outOfStep []) := by
  have hh : handshake (journaling scripted) fixedNonce (outOfStep []) =
      (.error .timeout, { outOfStep [] with channel := .closed, handshakes := 2 }) := rfl
  exact not_retryLaw_of_error (by decide) rfl hh rfl

end Law

end Link

end SecurityKey.Hid
