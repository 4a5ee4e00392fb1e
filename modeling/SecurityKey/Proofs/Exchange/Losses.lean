import SecurityKey.Proofs.Exchange.Refinement

/-!
# Exchanges on a link that loses answers

An APDU may be lost on its way to the card, and its answer on the way back. The host cannot tell one from the other, but
what the card has executed is not the same.

- `Delivery`: what becomes of one APDU, on both sides;
- `Accounting`: a card that tells what it has executed, on a link that may lose anything;
- a command sent as a whole was executed successfully at most once, as its last execution, and whoever hears of success
  has had it executed (`Whole`, `whole_sendWhole`);
- so it is with an exchange, but for requests for more of the answer behind it (`Outcome`, `outcome_transmit`).
-/

namespace SecurityKey.Exchange

open Apdu (Command Response StatusWord)
open Apdu.Command (IsLink IsGetResponse)

variable {τ : Type}

/-! ## Executions -/

/-- A command that a card executed, and whether that was successful. Of a chain it is the last link. -/
structure Execution where
  command : Command
  successful : Bool

/-- Whether a status word tells of success, with or without more of the answer to come. -/
def Accepts (sw : StatusWord) : Prop := sw = .success ∨ sw.sw1 = 0x61

/-- What becomes of an APDU: what the host gets for it, and what the card has executed then. -/
inductive Delivery (c : Command) (done : List Execution) : Except Link.Error Response → List Execution → Prop
  /-- Nothing is executed: the APDU is lost or refused, it is a link of a chain, or asks for more of an answer. -/
  | unexecuted {result : Except Link.Error Response}
      (told : ∀ r, result = .ok r → Accepts r.sw → c.IsLink ∨ c.IsGetResponse) : Delivery c done result done
  /-- The command is executed. Its answer may be lost. -/
  | executed {result : Except Link.Error Response} (successful : Bool) (whole : ¬ c.IsLink)
      (told : ∀ r, result = .ok r → (Accepts r.sw ↔ successful = true)) :
      Delivery c done result (done ++ [⟨c, successful⟩])

/-- A card that accounts for what it has executed, on a link that may lose any APDU and any answer. -/
structure Accounting (card : Card τ) where
  done : τ → List Execution
  delivers : ∀ c t, Delivery c (done t) (card.transceive c t).1 (done (card.transceive c t).2)
  /-- Nothing is executed while the host fails to connect. -/
  connects : ∀ t e, (card.connect t).1 = .error e → done (card.connect t).2 = done t

/-- Commands with the same instruction and parameters. -/
structure SameKind (d c : Command) : Prop where
  ins : d.ins = c.ins
  p1 : d.p1 = c.p1
  p2 : d.p2 = c.p2

theorem SameKind.refl (c : Command) : SameKind c c := ⟨rfl, rfl, rfl⟩

theorem SameKind.trans {d e c : Command} (h : SameKind d e) (h' : SameKind e c) : SameKind d c :=
  ⟨h.ins.trans h'.ins, h.p1.trans h'.p1, h.p2.trans h'.p2⟩

/-- Nothing but failures at commands of a kind. -/
def Failed (c : Command) (xs : List Execution) : Prop := ∀ x ∈ xs, SameKind x.command c ∧ x.successful = false

/-- What a card has executed for a command sent as a whole, by what the host gets: failures only, which it does not
hear of as success, or a success after them. -/
inductive Whole (c : Command) : Except Error Response → List Execution → Prop
  | failed {result : Except Error Response} {xs : List Execution} (failed : Failed c xs)
      (told : ∀ r, result = .ok r → ¬ Accepts r.sw) : Whole c result xs
  | succeeded {result : Except Error Response} {xs : List Execution} {d : Command} (failed : Failed c xs)
      (kind : SameKind d c) (told : ∀ r, result = .ok r → Accepts r.sw) : Whole c result (xs ++ [⟨d, true⟩])

/-- The same for an exchange. The rest of the answer is asked for after a success. -/
inductive Outcome (c : Command) : Except Error Response → List Execution → Prop
  | failed {result : Except Error Response} {xs : List Execution} (failed : Failed c xs)
      (told : ∀ r, result = .ok r → r.isSuccess = false) : Outcome c result xs
  | succeeded {result : Except Error Response} {xs later : List Execution} {d : Command} (failed : Failed c xs)
      (kind : SameKind d c) (more : ∀ x ∈ later, x.command.IsGetResponse) :
      Outcome c result (xs ++ ⟨d, true⟩ :: later)

namespace Whole

variable {c d : Command} {result : Except Error Response} {front xs : List Execution}

/-- After failures at the same kind of command. -/
theorem behind (h : Whole d result xs) (hk : SameKind d c) (hf : Failed c front) : Whole c result (front ++ xs) := by
  have hfailed : ∀ {xs : List Execution}, Failed d xs → Failed c (front ++ xs) := by
    intro xs hxs x hx
    rcases List.mem_append.mp hx with hx | hx
    · exact hf x hx
    · obtain ⟨hkind, hs⟩ := hxs x hx
      exact ⟨hkind.trans hk, hs⟩
  cases h with
  | failed hxs told => exact .failed (hfailed hxs) told
  | @succeeded xs d' hxs kind told =>
    rw [← List.append_assoc]
    exact .succeeded (hfailed hxs) (kind.trans hk) told

/-- Of a command of the same kind. -/
theorem of_kind (h : Whole d result xs) (hk : SameKind d c) : Whole c result xs := by
  have hnone : Failed c [] := List.forall_mem_nil _
  exact h.behind hk hnone

/-- A refusal tells of failures only. -/
theorem failed_of_refusal {r : Response} (h : Whole c (.ok r) xs) (hr : ¬ Accepts r.sw) : Failed c xs := by
  cases h with
  | failed hxs _ => exact hxs
  | succeeded _ _ told => exact absurd (told r rfl) hr

end Whole

theorem not_accepts_wrongLength : ¬ Accepts .wrongLength := by
  unfold Accepts
  decide

theorem not_accepts_of_exactLength? {sw : StatusWord} {n : UInt8} (h : sw.exactLength? = some n) : ¬ Accepts sw := by
  unfold StatusWord.exactLength? at h
  split at h
  · rename_i hsw
    rintro (rfl | ha)
    · exact absurd hsw.1 (by decide)
    · exact absurd (hsw.1.symm.trans ha) (by decide)
  · cases h

/-! ## Commands sent -/

section Sending

variable {card : Card τ} (h : Accounting card) {c : Command}

/-- What the card has executed between two states, with the result of it. -/
def Account {α : Type} (P : Except Error α → List Execution → Prop) (t : τ) (run : Except Error α × τ) : Prop :=
  ∃ xs, h.done run.2 = h.done t ++ xs ∧ P run.1 xs

/-- One APDU. -/
theorem delivery_send (c : Command) (t : τ) : ∃ result, Delivery c (h.done t) result (h.done (send card c t).2) ∧
    (send card c t).1 = result.mapError Error.ofLink :=
  ⟨_, h.delivers c t, rfl⟩

/-- A command in one piece. -/
theorem whole_send (hl : ¬ c.IsLink) (hg : ¬ c.IsGetResponse) (t : τ) : Account h (Whole c) t (send card c t) := by
  obtain ⟨result, hd, hr⟩ := delivery_send h c t
  unfold Account
  rw [hr]
  generalize h.done (send card c t).2 = after at hd
  cases hd with
  | unexecuted told =>
    refine ⟨[], (List.append_nil _).symm, .failed (List.forall_mem_nil _) fun r he ha => ?_⟩
    rcases told r (Action.eq_ok_of_mapError he) ha with hc | hc
    · exact hl hc
    · exact hg hc
  | executed successful whole told =>
    refine ⟨[⟨c, successful⟩], rfl, ?_⟩
    cases successful with
    | true =>
      have hempty : Failed c [] := List.forall_mem_nil _
      exact .succeeded hempty (.refl c) fun r he => (told r (Action.eq_ok_of_mapError he)).mpr rfl
    | false =>
      refine .failed (List.forall_mem_singleton.mpr ⟨.refl c, rfl⟩) fun r he ha => ?_
      exact absurd ((told r (Action.eq_ok_of_mapError he)).mp ha) Bool.false_ne_true

/-- A link of a chain is not executed. -/
theorem done_send_link (hl : c.IsLink) (t : τ) : h.done (send card c t).2 = h.done t := by
  obtain ⟨result, hd, -⟩ := delivery_send h c t
  generalize h.done (send card c t).2 = after at hd
  cases hd with
  | unexecuted _ => rfl
  | executed _ whole _ => exact absurd hl whole

/-- The links of a chain: the last one is executed for the command. -/
theorem whole_sendLinks (hl : ¬ c.IsLink) (hg : c.ins ≠ 0xc0) (total : Nat) {pieces : List Bytes} (hne : pieces ≠ []) :
    ∀ (index : Nat) (t : τ), Account h (Whole c) t (sendLinks card total index (c.links pieces) t) := by
  induction pieces with
  | nil => exact absurd rfl hne
  | cons data rest ih =>
    intro index t
    cases rest with
    | nil =>
      obtain ⟨xs, hx, hw⟩ := whole_send h (c := c.toShort.withData data) hl (fun he => hg (congrArg Command.ins he)) t
      exact ⟨xs, hx, hw.of_kind ⟨rfl, rfl, rfl⟩⟩
    | cons next rest =>
      have hlink := done_send_link h
        (c := { c with cla := c.cla ||| Command.chainingBit, data, ne := 0, ne_le := by decide })
        (Apdu.Command.or_chainingBit c.cla) t
      have hlost : ∀ e, Whole c (.error e) [] := fun e => .failed (List.forall_mem_nil _) nofun
      rw [Apdu.Command.links, sendLinks, Action.run_bind]
      · rcases hs : send card _ t with ⟨e | r, t'⟩
        · rw [hs] at hlink
          exact ⟨[], by rw [List.append_nil]; exact hlink, hlost e⟩
        · rw [hs] at hlink
          simp only at hlink ⊢
          split
          · obtain ⟨xs, hx, hw⟩ := ih (List.cons_ne_nil _ _) (index + 1) t'
            exact ⟨xs, by rw [hx, hlink], hw⟩
          · exact ⟨[], by rw [List.append_nil]; exact hlink, hlost _⟩
      · exact Apdu.Command.links_ne_nil c (List.cons_ne_nil next rest)
      · intro hnil
        cases hnil

/-- A command as a chain. -/
theorem whole_sendChain (hl : ¬ c.IsLink) (hg : c.ins ≠ 0xc0) (size : Nat) (t : τ) :
    Account h (Whole c) t (sendChain card c size t) := by
  unfold sendChain Command.chain
  split
  · obtain ⟨xs, hx, hw⟩ := whole_send h (c := c.toShort) hl (fun he => hg (congrArg Command.ins he)) t
    exact ⟨xs, hx, hw.of_kind ⟨rfl, rfl, rfl⟩⟩
  · rename_i hlong
    have hdata : c.data ≠ [] := by
      intro hd
      rw [hd] at hlong
      exact hlong (Nat.zero_le _)
    have hsize : 0 < Command.linkSize size := by
      unfold Command.linkSize
      omega
    refine whole_sendLinks h hl hg _ ?_ 0 t
    rw [chunks_of_ne_nil hsize hdata]
    exact List.cons_ne_nil _ _

/-- A command in the form it needs and the card takes. -/
theorem whole_sendWhole (hl : ¬ c.IsLink) (hg : c.ins ≠ 0xc0) (size : Nat) (t : τ) :
    Account h (Whole c) t (sendWhole card c size t) := by
  have hsend := whole_send h hl (fun he => hg (congrArg Command.ins he)) t
  unfold sendWhole
  split
  · exact hsend
  rw [Action.run_bind, Action.run_get]
  simp only
  split
  · obtain ⟨xs, hx, hw⟩ := hsend
    rw [Action.run_bind]
    rcases hs : send card c t with ⟨e | r, t'⟩
    · rw [hs] at hx hw
      exact ⟨xs, hx, hw⟩
    · rw [hs] at hx hw
      simp only
      split
      · rename_i hsw
        -- a refused length tells that nothing was successful so far
        have hfailed : Failed c xs := hw.failed_of_refusal (hsw ▸ not_accepts_wrongLength)
        obtain ⟨ys, hy, hw'⟩ := whole_sendChain h hl hg size t'
        exact ⟨xs ++ ys, by rw [hy, hx, List.append_assoc], hw'.behind (.refl c) hfailed⟩
      · exact ⟨xs, hx, hw⟩
  · exact whole_sendChain h hl hg size t

/-! ## Exchanges -/

/-- While the rest of an answer is fetched, nothing else is executed. -/
theorem done_fetch (parts : Nat) : ∀ (received : Bytes) (available : UInt8) (t : τ),
    ∃ later, h.done (fetch card parts received available t).2 = h.done t ++ later ∧
      ∀ x ∈ later, x.command.IsGetResponse := by
  induction parts with
  | zero => exact fun received available t => ⟨[], (List.append_nil _).symm, List.forall_mem_nil _⟩
  | succ parts ih =>
    intro received available t
    have hsend : ∃ later, h.done (send card (.getResponse available) t).2 = h.done t ++ later ∧
        ∀ x ∈ later, x.command.IsGetResponse := by
      obtain ⟨result, hd, -⟩ := delivery_send h (.getResponse available) t
      generalize h.done (send card (.getResponse available) t).2 = after at hd
      cases hd with
      | unexecuted _ => exact ⟨[], (List.append_nil _).symm, List.forall_mem_nil _⟩
      | executed successful _ _ =>
        exact ⟨_, rfl, List.forall_mem_singleton.mpr (Apdu.Command.isGetResponse_getResponse available)⟩
    obtain ⟨xs, hx, hget⟩ := hsend
    rw [fetch, Action.run_bind]
    rcases hs : send card (.getResponse available) t with ⟨e | r, t'⟩
    · rw [hs] at hx
      exact ⟨xs, hx, hget⟩
    · rw [hs] at hx
      simp only at hx ⊢
      cases r.sw.remaining? with
      | some more =>
        obtain ⟨ys, hy, hmore⟩ := ih (received ++ r.data) more t'
        exact ⟨xs ++ ys, by rw [hy, hx, List.append_assoc], List.forall_mem_append.mpr ⟨hget, hmore⟩⟩
      | none => exact ⟨xs, hx, hget⟩

/-- An answer is completed after it was accepted, and taken as it is otherwise. -/
theorem outcome_complete {r : Response} {front : List Execution} {t₀ t : τ} (hd : h.done t = h.done t₀ ++ front)
    (hw : Whole c (.ok r) front) : Account h (Outcome c) t₀ (complete card r t) := by
  cases hw with
  | failed hf told =>
    have hr := told r rfl
    have hrem : r.sw.remaining? = none := if_neg fun he => hr (.inr he)
    unfold complete
    rw [hrem]
    refine ⟨front, hd, .failed hf fun r' he => ?_⟩
    obtain rfl := Except.ok.inj he
    exact decide_eq_false fun hs => hr (.inl hs)
  | @succeeded xs d hf kind told =>
    obtain ⟨later, hl, hmore⟩ : ∃ later, h.done (complete card r t).2 = h.done t ++ later ∧
        ∀ x ∈ later, x.command.IsGetResponse := by
      unfold complete
      cases r.sw.remaining? with
      | some available => exact done_fetch h _ _ _ t
      | none => exact ⟨[], (List.append_nil _).symm, List.forall_mem_nil _⟩
    refine ⟨xs ++ ⟨d, true⟩ :: later, ?_, .succeeded hf kind hmore⟩
    rw [hl, hd]
    simp

/-- An exchange. -/
theorem outcome_transmit (hl : ¬ c.IsLink) (hg : c.ins ≠ 0xc0) (size : Nat) (t : τ) :
    Account h (Outcome c) t (transmit card c size t) := by
  have herror : ∀ {e : Error} {xs : List Execution}, Whole c (.error e) xs → Outcome c (.error e) xs := by
    intro e xs hw
    cases hw with
    | failed hf _ => exact .failed hf nofun
    | succeeded hf kind _ =>
      have hnone : ∀ x ∈ ([] : List Execution), x.command.IsGetResponse := List.forall_mem_nil _
      exact .succeeded hf kind hnone
  obtain ⟨xs, hx, hw⟩ := whole_sendWhole h hl hg size t
  unfold transmit
  rw [Action.run_bind]
  rcases hs : sendWhole card c size t with ⟨e | r, t'⟩
  · rw [hs] at hx hw
    exact ⟨xs, hx, herror hw⟩
  · rw [hs] at hx hw
    simp only
    cases hexact : r.sw.exactLength? with
    | some exact =>
      have hfailed : Failed c xs := hw.failed_of_refusal (not_accepts_of_exactLength? hexact)
      obtain ⟨ys, hy, hw'⟩ := whole_sendWhole h (c := c.withNe exact.toNat) hl hg size t'
      have hd : ∀ {u : τ}, h.done u = h.done t' ++ ys → h.done u = h.done t ++ (xs ++ ys) := by
        intro u hu
        rw [hu, hx, List.append_assoc]
      replace hw' : Whole c _ (xs ++ ys) := hw'.behind ⟨rfl, rfl, rfl⟩ hfailed
      simp only
      rw [Action.run_bind]
      rcases hs' : sendWhole card (c.withNe exact.toNat) size t' with ⟨e | r', t''⟩
      · rw [hs'] at hy hw'
        exact ⟨xs ++ ys, hd hy, herror hw'⟩
      · rw [hs'] at hy hw'
        exact outcome_complete h (hd hy) hw'
    | none => exact outcome_complete h hx hw

end Sending

end SecurityKey.Exchange
