import SecurityKey.Proofs.Exchange.Refinement

/-!
# Dialogues with a card

What happens between a host and a card is a sequence of exchanges: a whole command and its whole answer each.

- `Dialogue card size s xs t`: the exchanges `xs` lead the card from `s` to `t`, with nothing sent but for them;
- `Conducts card size part a s Q`: an action on a state that has the card in it conducts a dialogue, which is with its
  result and the state it leaves as `Q` tells;
- `recording`: a card that keeps every APDU sent to it;
- every APDU of an exchange serves its command (`moves_transmit`), so in a dialogue with a recorded card every APDU
  serves the command of one of the exchanges (`Dialogue.sent`);
- every exchange takes at least one APDU (`speaks_transmit`), so no exchange of a dialogue goes unrecorded
  (`Dialogue.length_le`);
- a command that fits the short form is sent as it is before anything else (`begins_transmit`, `Dialogue.begins`).
-/

namespace SecurityKey.Exchange

open Apdu (Command Response)

variable {σ : Type}

/-! ## Dialogues -/

/-- A whole command and its whole answer, or why there is none. -/
structure Exchanged where
  command : Command
  answer : Except Error Response

/-- A sequence of exchanges between two states of a card. In between the card may be connected and released. -/
inductive Dialogue (card : Card σ) (size : Nat) : σ → List Exchanged → σ → Prop
  | nil (s : σ) : Dialogue card size s [] s
  | exchange {s t u : σ} {c : Command} {answer : Except Error Response} {xs : List Exchanged}
      (h : transmit card c size s = (answer, t)) (rest : Dialogue card size t xs u) :
      Dialogue card size s (⟨c, answer⟩ :: xs) u
  | connect {s t u : σ} {r : Except Link.Error Unit} {xs : List Exchanged} (h : card.connect s = (r, t))
      (rest : Dialogue card size t xs u) : Dialogue card size s xs u
  | release {s u : σ} {xs : List Exchanged} (rest : Dialogue card size (card.release s) xs u) :
      Dialogue card size s xs u

/-- One dialogue after another. -/
theorem Dialogue.trans {card : Card σ} {size : Nat} {s t u : σ} {xs ys : List Exchanged}
    (h : Dialogue card size s xs t) (h' : Dialogue card size t ys u) : Dialogue card size s (xs ++ ys) u := by
  induction h with
  | nil _ => exact h'
  | exchange ht _ ih => exact .exchange ht (ih h')
  | connect hc _ ih => exact .connect hc (ih h')
  | release _ ih => exact .release (ih h')

/-! ## Actions that conduct dialogues -/

section Conducts

variable {τ ε α β : Type} (card : Card σ) (size : Nat) (part : τ → σ)

/-- An action goes on from a state by exchanges with the card in it, and they, its result and the state it leaves are
as told. -/
def Conducts (a : Action τ ε α) (s : τ) (Q : List Exchanged → Except ε α → τ → Prop) : Prop :=
  ∃ xs, Dialogue card size (part s) xs (part (a s).2) ∧ Q xs (a s).1 (a s).2

variable {card size part} {a : Action τ ε α} {s : τ} {Q T : List Exchanged → Except ε α → τ → Prop}

theorem Conducts.mono (h : Conducts card size part a s Q) (hT : ∀ xs r t, Q xs r t → T xs r t) :
    Conducts card size part a s T := by
  obtain ⟨xs, hx, hQ⟩ := h
  exact ⟨xs, hx, hT xs _ _ hQ⟩

/-- The result and the state are those of the action. -/
theorem Conducts.and_run (h : Conducts card size part a s Q) :
    Conducts card size part a s fun xs r t => Q xs r t ∧ a s = (r, t) := by
  obtain ⟨xs, hx, hQ⟩ := h
  exact ⟨xs, hx, hQ, rfl⟩

/-- An action that leaves the card alone exchanges nothing. -/
theorem Conducts.quiet (hcard : part (a s).2 = part s) (h : T [] (a s).1 (a s).2) :
    Conducts card size part a s T := by
  refine ⟨[], ?_, h⟩
  rw [hcard]
  exact .nil _

/-- An action that runs like another one from a state with the same card conducts the same dialogue. -/
theorem Conducts.of_run {b : Action τ ε α} {t : τ} (h : a s = b t) (hcard : part t = part s)
    (hb : Conducts card size part b t T) : Conducts card size part a s T := by
  unfold Conducts
  rw [h, ← hcard]
  exact hb

/-- One action after another. -/
theorem Conducts.bind {f : α → Action τ ε β} {T : List Exchanged → Except ε β → τ → Prop}
    (ha : Conducts card size part a s Q) (herror : ∀ t xs e, Q xs (.error e) t → T xs (.error e) t)
    (hok : ∀ t xs x, a s = (.ok x, t) → Q xs (.ok x) t →
      Conducts card size part (f x) t fun ys r u => T (xs ++ ys) r u) :
    Conducts card size part (a >>= f) s T := by
  obtain ⟨xs, hx, hQ⟩ := ha
  unfold Conducts
  rw [Action.run_bind]
  rcases h : a s with ⟨e | x, t⟩
  · rw [h] at hx hQ
    exact ⟨xs, hx, herror t xs e hQ⟩
  · rw [h] at hx hQ
    obtain ⟨ys, hy, hT⟩ := hok t xs x h hQ
    exact ⟨xs ++ ys, hx.trans hy, hT⟩

/-- A check exchanges nothing. -/
theorem Conducts.ofExcept_bind {ε' : Type} {g : ε' → ε} {r : Except ε' α} {f : α → Action τ ε β}
    {T : List Exchanged → Except ε β → τ → Prop} (herror : ∀ e, T [] (.error e) s)
    (hok : ∀ x, r = .ok x → Conducts card size part (f x) s T) :
    Conducts card size part (Action.ofExcept g r >>= f) s T := by
  cases r with
  | error e => exact .quiet rfl (herror (g e))
  | ok x => exact hok x rfl

end Conducts

/-! ## APDUs on the wire -/

/-- A card and the APDUs that were sent to it, in order. -/
structure Recorded (σ : Type) where
  card : σ
  sent : List Command

/-- A card that keeps every APDU sent to it. -/
def recording (card : Card σ) : Card (Recorded σ) where
  connect := Action.zoom Recorded.card (fun s r => { r with card := s }) card.connect
  transceive c r := ((card.transceive c r.card).1, ⟨(card.transceive c r.card).2, r.sent ++ [c]⟩)
  release r := { r with card := card.release r.card }
  isConnected r := card.isConnected r.card
  supportsExtended r := card.supportsExtended r.card

/-- An APDU that serves a command: a part of it, or the request for more of its answer. -/
inductive Serves (c : Command) : Command → Prop
  | part {a : Command} (cla : a.cla = c.cla ∨ a.cla = c.cla ||| Command.chainingBit) (ins : a.ins = c.ins)
      (p1 : a.p1 = c.p1) (p2 : a.p2 = c.p2) (data : a.data <:+: c.data) : Serves c a
  | more (available : UInt8) : Serves c (.getResponse available)

theorem Serves.refl (c : Command) : Serves c c := .part (.inl rfl) rfl rfl rfl List.infix_rfl

/-- The links of a chain serve its command when they carry pieces of its data. -/
theorem serves_of_mem_links {c a : Command} {pieces : List Bytes} (hp : ∀ b ∈ pieces, b <:+: c.data)
    (h : a ∈ c.links pieces) : Serves c a := by
  induction pieces with
  | nil => cases h
  | cons data rest ih =>
    have hd := hp data (List.mem_cons_self ..)
    cases rest with
    | nil =>
      obtain rfl := List.mem_singleton.mp h
      exact .part (.inl rfl) rfl rfl rfl hd
    | cons next rest =>
      rcases List.mem_cons.mp h with rfl | h
      · exact .part (.inr rfl) rfl rfl rfl hd
      · exact ih (fun b hb => hp b (List.mem_cons_of_mem _ hb)) h

theorem serves_of_mem_chain {c a : Command} {size : Nat} (h : a ∈ c.chain size) : Serves c a := by
  unfold Command.chain at h
  split at h
  · obtain rfl := List.mem_singleton.mp h
    exact .part (.inl rfl) rfl rfl rfl List.infix_rfl
  · refine serves_of_mem_links (fun b hb => ?_) h
    have hsize : 0 < Command.linkSize size := Nat.lt_of_lt_of_le Nat.one_pos (Nat.le_max_left ..)
    have hinfix := List.infix_of_mem_flatten hb
    rwa [flatten_chunks hsize] at hinfix

/-- APDUs of one kind are sent. -/
def sending (P : Command → Prop) : Movement (Recorded σ) where
  rel s t := ∃ apdus, t.sent = s.sent ++ apdus ∧ ∀ a ∈ apdus, P a
  refl s := ⟨[], (List.append_nil _).symm, fun _ h => nomatch h⟩
  trans := by
    rintro s t u ⟨xs, hx, hP⟩ ⟨ys, hy, hQ⟩
    refine ⟨xs ++ ys, by rw [hy, hx, List.append_assoc], ?_⟩
    intro a ha
    rcases List.mem_append.mp ha with ha | ha
    · exact hP a ha
    · exact hQ a ha

section Sending

variable (card : Card σ) {P : Command → Prop}

theorem moves_send {c : Command} (h : P c) : Action.Moves (sending P) (send (recording card) c) := by
  intro r
  refine ⟨[c], rfl, ?_⟩
  intro a ha
  rwa [List.mem_singleton.mp ha]

theorem moves_sendLinks (total : Nat) {links : List Command} (h : ∀ a ∈ links, P a) (index : Nat) :
    Action.Moves (sending P) (sendLinks (recording card) total index links) := by
  induction links generalizing index with
  | nil => exact .throw _
  | cons c rest ih =>
    have hc := moves_send card (h c (List.mem_cons_self ..))
    cases rest with
    | nil => exact hc
    | cons next rest =>
      refine hc.bind fun r => ?_
      split
      · exact ih (fun a ha => h a (List.mem_cons_of_mem _ ha)) (index + 1)
      · exact .throw _

theorem moves_sendWhole {c : Command} (size : Nat) (h : ∀ a, Serves c a → P a) :
    Action.Moves (sending P) (sendWhole (recording card) c size) := by
  have hc := moves_send card (h c (.refl c))
  have hchain : Action.Moves (sending P) (sendChain (recording card) c size) :=
    moves_sendLinks card _ (fun a ha => h a (serves_of_mem_chain ha)) 0
  unfold sendWhole
  split
  · exact hc
  · refine .get_bind fun r => ?_
    show (sending P).rel r ((if _ then _ else _ : Action _ _ _) r).2
    split
    · refine hc.bind (fun r => ?_) r
      split
      · exact hchain
      · exact .pure _
    · exact hchain r

theorem moves_complete (h : ∀ available, P (.getResponse available)) (first : Response) :
    Action.Moves (sending P) (complete (recording card) first) := by
  have hfetch : ∀ n received available, Action.Moves (sending P) (fetch (recording card) n received available) := by
    intro n
    induction n with
    | zero => exact fun _ _ => .throw _
    | succ n ih =>
      intro received available
      refine (moves_send card (h available)).bind fun r => ?_
      split
      · exact ih _ _
      · exact .pure _
  unfold complete
  split
  · exact hfetch _ _ _
  · exact .pure _

/-- Every APDU of an exchange serves its command. -/
theorem moves_transmit (c : Command) (size : Nat) :
    Action.Moves (sending (Serves c)) (transmit (recording card) c size) := by
  have hcomplete := moves_complete card (P := Serves c) .more
  unfold transmit
  refine (moves_sendWhole card size fun a ha => ha).bind fun r => ?_
  split
  · refine (moves_sendWhole card size ?_).bind hcomplete
    rintro a (⟨hcla, hins, hp1, hp2, hdata⟩ | available)
    · exact .part hcla hins hp1 hp2 hdata
    · exact .more available
  · exact hcomplete r

/-- Nothing is sent to connect a card. -/
theorem sent_of_connect {s t : Recorded σ} {r : Except Link.Error Unit}
    (h : (recording card).connect s = (r, t)) : t.sent = s.sent := by
  have ht : t = ((recording card).connect s).2 := by rw [h]
  rw [ht]
  rfl

/-- Every APDU sent in a dialogue serves the command of one of the exchanges. -/
theorem Dialogue.sent {size : Nat} {s t : Recorded σ} {xs : List Exchanged}
    (h : Dialogue (recording card) size s xs t) :
    ∃ apdus, t.sent = s.sent ++ apdus ∧ ∀ a ∈ apdus, ∃ x ∈ xs, Serves x.command a := by
  induction h with
  | nil s => exact ⟨[], (List.append_nil _).symm, fun _ h => nomatch h⟩
  | @exchange s t u c answer xs ht _ ih =>
    have hm := moves_transmit card c size s
    rw [ht] at hm
    obtain ⟨first, hf, hserves⟩ := hm
    obtain ⟨rest, hr, hrest⟩ := ih
    refine ⟨first ++ rest, by rw [hr, hf, List.append_assoc], ?_⟩
    intro a ha
    rcases List.mem_append.mp ha with ha | ha
    · exact ⟨⟨c, answer⟩, List.mem_cons_self .., hserves a ha⟩
    · obtain ⟨x, hx, hs⟩ := hrest a ha
      exact ⟨x, List.mem_cons_of_mem _ hx, hs⟩
  | @connect s t u r xs hc _ ih =>
    rwa [sent_of_connect card hc] at ih
  | release _ ih => exact ih

end Sending

/-! ## Exchanges that are seen on the wire -/

/-- An action that sends at least one APDU, whatever was sent before. -/
def Speaks {α : Type} (a : Action (Recorded σ) Error α) : Prop := ∀ r, r.sent.length < (a r).2.sent.length

/-- Anything at all may be sent. -/
def talking : Movement (Recorded σ) := sending fun _ => True

theorem length_le_of_talking {r t : Recorded σ} (h : talking.rel r t) : r.sent.length ≤ t.sent.length := by
  obtain ⟨apdus, hsent, -⟩ := h
  rw [hsent, List.length_append]
  exact Nat.le_add_right ..

section Speaks

variable {α β : Type} (card : Card σ)

theorem Speaks.bind {a : Action (Recorded σ) Error α} {f : α → Action (Recorded σ) Error β} (ha : Speaks a)
    (hf : ∀ x, Action.Moves talking (f x)) : Speaks (a >>= f) := by
  intro r
  have hr := ha r
  rw [Action.run_bind]
  rcases h : a r with ⟨e | x, t⟩
  all_goals rw [h] at hr
  · exact hr
  · exact Nat.lt_of_lt_of_le hr (length_le_of_talking (hf x t))

theorem speaks_send (c : Command) : Speaks (send (recording card) c) := by
  intro r
  show r.sent.length < (r.sent ++ [c]).length
  rw [List.length_append]
  exact Nat.lt_succ_self _

theorem speaks_sendChain (c : Command) (size : Nat) : Speaks (sendChain (recording card) c size) := by
  have hlinks : ∀ (total index : Nat) (links : List Command), links ≠ [] →
      Speaks (sendLinks (recording card) total index links) := by
    intro total index links hne
    cases links with
    | nil => exact absurd rfl hne
    | cons c rest =>
      cases rest with
      | nil => exact speaks_send card c
      | cons next rest =>
        refine (speaks_send card c).bind fun r => ?_
        split
        · exact moves_sendLinks card total (fun _ _ => trivial) _
        · exact .throw _
  exact hlinks _ _ _ (c.chain_ne_nil size)

theorem speaks_sendWhole (c : Command) (size : Nat) : Speaks (sendWhole (recording card) c size) := by
  have hchain : Action.Moves talking (sendChain (recording card) c size) :=
    moves_sendLinks card _ (fun _ _ => trivial) 0
  unfold sendWhole
  split
  · exact speaks_send card c
  · intro r
    rw [Action.run_bind, Action.run_get]
    simp only
    split
    · refine (speaks_send card c).bind (fun answer => ?_) r
      split
      · exact hchain
      · exact .pure _
    · exact speaks_sendChain card c size r

/-- Every exchange takes at least one APDU. -/
theorem speaks_transmit (c : Command) (size : Nat) : Speaks (transmit (recording card) c size) := by
  have hcomplete : ∀ r, Action.Moves talking (complete (recording card) r) := moves_complete card fun _ => trivial
  unfold transmit
  refine (speaks_sendWhole card c size).bind fun r => ?_
  split
  · exact (moves_sendWhole card size fun _ _ => trivial).bind hcomplete
  · exact hcomplete r

/-- At least one APDU is recorded for every exchange of a dialogue. -/
theorem Dialogue.length_le {size : Nat} {s t : Recorded σ} {xs : List Exchanged}
    (h : Dialogue (recording card) size s xs t) : s.sent.length + xs.length ≤ t.sent.length := by
  induction h with
  | nil s => exact Nat.le_refl _
  | @exchange s t u c answer xs ht _ ih =>
    have hspeaks : s.sent.length < t.sent.length := by
      have h := speaks_transmit card c size s
      rwa [ht] at h
    rw [List.length_cons]
    omega
  | @connect s t u r xs hc _ ih =>
    rwa [sent_of_connect card hc] at ih
  | release _ ih => exact ih

/-- Where nothing is recorded, nothing is exchanged. -/
theorem Dialogue.eq_nil {size : Nat} {s t : Recorded σ} {xs : List Exchanged}
    (h : Dialogue (recording card) size s xs t) (hsent : t.sent = s.sent) : xs = [] := by
  have hle := h.length_le
  rw [hsent] at hle
  exact List.eq_nil_of_length_eq_zero (by omega)

end Speaks

/-! ## Commands in one piece -/

/-- An action that sends the command before any other APDU, whatever was sent before. -/
def Begins {α : Type} (c : Command) (a : Action (Recorded σ) Error α) : Prop :=
  ∀ r, ∃ rest, (a r).2.sent = r.sent ++ c :: rest

section Begins

variable {α β : Type} (card : Card σ) {c : Command}

theorem Begins.bind {a : Action (Recorded σ) Error α} {f : α → Action (Recorded σ) Error β} (ha : Begins c a)
    (hf : ∀ x, Action.Moves talking (f x)) : Begins c (a >>= f) := by
  intro r
  obtain ⟨rest, hr⟩ := ha r
  rw [Action.run_bind]
  rcases h : a r with ⟨e | x, t⟩
  all_goals rw [h] at hr
  · exact ⟨rest, hr⟩
  · obtain ⟨more, hmore, -⟩ := hf x t
    refine ⟨rest ++ more, hmore.trans ?_⟩
    rw [hr, List.append_assoc, List.cons_append]

/-- A command that fits the short form is sent as it is, and whatever follows is sent behind it. -/
theorem begins_transmit (h : c.fits .short = true) (size : Nat) : Begins c (transmit (recording card) c size) := by
  have hsend : Begins c (sendWhole (recording card) c size) := by
    rw [sendWhole, if_pos h]
    exact fun r => ⟨[], rfl⟩
  have hcomplete : ∀ r, Action.Moves talking (complete (recording card) r) := moves_complete card fun _ => trivial
  unfold transmit
  refine hsend.bind fun r => ?_
  split
  · exact (moves_sendWhole card size fun _ _ => trivial).bind hcomplete
  · exact hcomplete r

/-- A dialogue that begins with such a command begins with it on the wire. -/
theorem Dialogue.begins {size : Nat} {s t : Recorded σ} {answer : Except Error Response} {xs : List Exchanged}
    (hc : c.fits .short = true) (h : Dialogue (recording card) size s (⟨c, answer⟩ :: xs) t) :
    ∃ rest, t.sent = s.sent ++ c :: rest := by
  generalize hys : (⟨c, answer⟩ :: xs : List Exchanged) = ys at h
  induction h with
  | nil s => cases hys
  | @exchange s t u c answer ys ht hrest _ =>
    cases hys
    obtain ⟨first, hfirst⟩ := begins_transmit card hc size s
    obtain ⟨rest, hsent, -⟩ := hrest.sent
    rw [ht] at hfirst
    refine ⟨first ++ rest, hsent.trans ?_⟩
    rw [hfirst, List.append_assoc, List.cons_append]
  | @connect s t u r ys hconnect _ ih =>
    rw [← sent_of_connect card hconnect]
    exact ih hys
  | release _ ih => exact ih hys

end Begins

end SecurityKey.Exchange
