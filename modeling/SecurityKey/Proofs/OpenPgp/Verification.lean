import Mathlib.Data.List.Induction
import SecurityKey.Proofs.Exchange.Losses
import SecurityKey.Proofs.OpenPgp.Runs

/-!
# Whether a PIN is still verified

A session remembers which PINs were verified, so that it does not ask for them again. What it remembers is of use only
as long as the card agrees.

- `held`: the references that a card holds verified after what it has executed;
- `Sound`: whatever the session remembers as verified, the card holds verified;
- all calls keep that but for one (`moves_select`, `moves_verify`, `moves_resetUserPin`): when the card has changed the
  admin PIN and the host does not hear of it, the session goes on remembering the old one (`sound_changeAdminPin`);
- so what a session remembers is right after all calls exactly where no such answer is lost (`verified_sound_iff`).
-/

namespace SecurityKey.OpenPgp

open Apdu (Command)
open Exchange (Accounting Execution Outcome SameKind)

variable {τ : Type} {card : Card τ}

/-! ## What a card holds verified -/

/-- The command verifies a reference. -/
structure Verifies (c : Command) (r : PinReference) : Prop where
  ins : c.ins = 0x20
  p1 : c.p1 = 0x00
  p2 : c.p2 = r.toByte

/-- The command changes the admin PIN. -/
structure ChangesAdmin (c : Command) : Prop where
  ins : c.ins = 0x24
  p1 : c.p1 = 0x00
  p2 : c.p2 = PinReference.admin.toByte

instance (c : Command) (r : PinReference) : Decidable (Verifies c r) :=
  decidable_of_iff (c.ins = 0x20 ∧ c.p1 = 0x00 ∧ c.p2 = r.toByte)
    ⟨fun h => ⟨h.1, h.2.1, h.2.2⟩, fun h => ⟨h.ins, h.p1, h.p2⟩⟩

instance (c : Command) : Decidable (ChangesAdmin c) :=
  decidable_of_iff (c.ins = 0x24 ∧ c.p1 = 0x00 ∧ c.p2 = PinReference.admin.toByte)
    ⟨fun h => ⟨h.1, h.2.1, h.2.2⟩, fun h => ⟨h.ins, h.p1, h.p2⟩⟩

/-- The references held verified after one more command: none after a selection, one more or less after a verification,
and not the admin PIN after it was changed. -/
def marked (held : PinReference → Bool) (x : Execution) (r : PinReference) : Bool :=
  if x.command.ins = 0xa4 then false
  else if Verifies x.command r then x.successful
  else if r = .admin ∧ ChangesAdmin x.command ∧ x.successful = true then false
  else held r

/-- The references that a card holds verified after what it has executed. -/
def held (done : List Execution) : PinReference → Bool := done.foldl marked fun _ => false

/-- A command that does nothing to a reference. -/
def Spares (r : PinReference) (x : Execution) : Prop :=
  x.command.ins ≠ 0xa4 ∧ ¬ Verifies x.command r ∧ ¬ (r = .admin ∧ ChangesAdmin x.command ∧ x.successful = true)

theorem held_append (done : List Execution) (x : Execution) : held (done ++ [x]) = marked (held done) x := by
  unfold held
  rw [List.foldl_append]
  rfl

/-- What is held of a reference remains while nothing is done to it. -/
theorem held_of_spares {done xs : List Execution} {r : PinReference} (h : ∀ x ∈ xs, Spares r x) :
    held (done ++ xs) r = held done r := by
  induction xs generalizing done with
  | nil => rw [List.append_nil]
  | cons x xs ih =>
    obtain ⟨hs, hv, hc⟩ := h x (List.mem_cons_self ..)
    rw [show done ++ x :: xs = (done ++ [x]) ++ xs by simp, ih fun y hy => h y (List.mem_cons_of_mem _ hy), held_append]
    unfold marked
    rw [if_neg hs, if_neg hv, if_neg hc]

/-- Requests for more of an answer spare all references. -/
theorem spares_of_isGetResponse {x : Execution} (h : x.command.IsGetResponse) (r : PinReference) : Spares r x := by
  have hi : x.command.ins = 0xc0 := congrArg Command.ins h
  refine ⟨?_, fun hv => ?_, fun hc => ?_⟩
  · rw [hi]
    decide
  · rw [hv.ins] at hi
    cases hi
  · rw [hc.2.1.ins] at hi
    cases hi

/-- So do commands with another instruction. -/
theorem spares_of_kind {c : Command} {x : Execution} (hk : SameKind x.command c) (hs : c.ins ≠ 0xa4)
    (hv : c.ins ≠ 0x20) (hc : c.ins ≠ 0x24) (r : PinReference) : Spares r x :=
  ⟨fun h => hs (hk.ins.symm.trans h), fun h => hv (hk.ins.symm.trans h.ins), fun h => hc (hk.ins.symm.trans h.2.1.ins)⟩

/-- What an exchange leaves of a reference that neither its command nor the request for more of an answer touches. -/
theorem held_of_outcome {c : Command} {result : Except Error Apdu.Response} {done xs : List Execution}
    {r : PinReference} (h : Outcome c result xs) (hk : ∀ x : Execution, SameKind x.command c → Spares r x) :
    held (done ++ xs) r = held done r := by
  refine held_of_spares fun x hx => ?_
  cases h with
  | failed hf _ => exact hk x (hf x hx).1
  | succeeded hf kind more =>
    rcases List.mem_append.mp hx with hx | hx
    · exact hk x (hf x hx).1
    · rcases List.mem_cons.mp hx with rfl | hx
      · exact hk _ kind
      · exact spares_of_isGetResponse (more x hx) r

/-! ## Verifying and changing -/

theorem PinReference.toByte_injective {r r' : PinReference} (h : r.toByte = r'.toByte) : r = r' := by
  cases r <;> cases r' <;> first | rfl | exact absurd h (by decide)

variable {pin current new : Pin} {r : PinReference} {result : Except Error Apdu.Response} {done xs : List Execution}

/-- A verification spares the other references. -/
theorem spares_verifyApdu {r' : PinReference} (hr : r' ≠ r) {x : Execution}
    (hk : SameKind x.command (Session.verifyApdu r pin)) : Spares r' x := by
  refine ⟨fun h => ?_, fun h => hr (PinReference.toByte_injective (h.p2.symm.trans hk.p2)), fun h => ?_⟩
  · exact absurd (hk.ins.symm.trans h) (by decide : (0x20 : UInt8) ≠ 0xa4)
  · exact absurd (hk.ins.symm.trans h.2.1.ins) (by decide : (0x20 : UInt8) ≠ 0x24)

/-- A change of the admin PIN spares the other references, and all where it fails. -/
theorem spares_changeAdminApdu {x : Execution} (hk : SameKind x.command (Session.changeAdminApdu current new))
    (hr : r ≠ .admin ∨ x.successful = false) : Spares r x := by
  refine ⟨fun h => ?_, fun h => ?_, fun h => ?_⟩
  · exact absurd (hk.ins.symm.trans h) (by decide : (0x24 : UInt8) ≠ 0xa4)
  · exact absurd (hk.ins.symm.trans h.ins) (by decide : (0x24 : UInt8) ≠ 0x20)
  · rcases hr with hr | hr
    · exact hr h.1
    · rw [hr] at h
      exact absurd h.2.2 Bool.false_ne_true

/-- After a success nothing but the rest of an answer follows. -/
theorem held_of_success {d : Command} {later : List Execution} (more : ∀ x ∈ later, x.command.IsGetResponse) :
    held (done ++ (xs ++ ⟨d, true⟩ :: later)) r = marked (held (done ++ xs)) ⟨d, true⟩ r := by
  rw [show done ++ (xs ++ ⟨d, true⟩ :: later) = (done ++ xs ++ [⟨d, true⟩]) ++ later by simp,
    held_of_spares fun x hx => spares_of_isGetResponse (more x hx) r, held_append]

/-- Whoever hears that a PIN was verified is right. -/
theorem held_of_verified {a : Apdu.Response} (h : Outcome (Session.verifyApdu r pin) (.ok a) xs)
    (ha : a.isSuccess = true) : held (done ++ xs) r = true := by
  cases h with
  | failed _ told =>
    rw [told a rfl] at ha
    cases ha
  | @succeeded xs later d hf kind more =>
    rw [held_of_success more]
    have hv : Verifies d r := ⟨kind.ins, kind.p1, kind.p2⟩
    have hs : d.ins ≠ 0xa4 := by
      rw [hv.ins]
      decide
    unfold marked
    rw [if_neg hs, if_pos hv]

variable (done) in
/-- Once the admin PIN was changed, it has to be verified again. -/
theorem held_of_changed (h : Outcome (Session.changeAdminApdu current new) result xs) :
    (∀ x ∈ xs, x.successful = true → ¬ SameKind x.command (Session.changeAdminApdu current new)) ∧
        held (done ++ xs) .admin = held done .admin ∨
      (∃ x ∈ xs, x.successful = true ∧ SameKind x.command (Session.changeAdminApdu current new)) ∧
        held (done ++ xs) .admin = false := by
  cases h with
  | failed hf _ =>
    refine .inl ⟨fun x hx hs => ?_, held_of_spares fun x hx => ?_⟩
    · rw [(hf x hx).2] at hs
      cases hs
    · exact spares_changeAdminApdu (hf x hx).1 (.inr (hf x hx).2)
  | @succeeded xs later d hf kind more =>
    refine .inr ⟨⟨⟨d, true⟩, List.mem_append_right _ (List.mem_cons_self ..), rfl, kind⟩, ?_⟩
    rw [held_of_success more]
    have hc : ChangesAdmin d := ⟨kind.ins, kind.p1, kind.p2⟩
    have hs : d.ins ≠ 0xa4 := by
      rw [hc.ins]
      decide
    have hv : ¬ Verifies d .admin := by
      intro hv
      exact absurd (hv.ins.symm.trans hc.ins) (by decide)
    unfold marked
    rw [if_neg hs, if_neg hv, if_pos ⟨rfl, hc, rfl⟩]

/-! ## What a session remembers -/

namespace Session

open Exchange (transmit)

variable (h : Accounting card) {s t : Session τ}

/-- Whatever a session remembers as verified, the card holds verified. -/
def Sound (s : Session τ) : Prop := ∀ r, s.verified r = true → held (h.done s.card) r = true

/-- Movements that a sound session stays sound with. -/
def safely : Movement (Session τ) where
  rel s t := Sound h s → Sound h t
  refl _ := id
  trans h h' := h' ∘ h

/-- Movements that change nothing of what is verified, on both sides. -/
def quietly : Movement (Session τ) where
  rel s t := t.verified = s.verified ∧ held (h.done t.card) = held (h.done s.card)
  refl _ := ⟨rfl, rfl⟩
  trans h h' := ⟨h'.1.trans h.1, h'.2.trans h.2⟩

theorem Sound.of_quietly (hs : Sound h s) (hq : (quietly h).rel s t) : Sound h t := by
  intro r hr
  rw [hq.2]
  exact hs r (hq.1 ▸ hr)

/-- A session that forgets, and leaves the card alone, stays sound. -/
theorem Sound.of_forgets (hs : Sound h s) (hc : t.card = s.card) (hv : ∀ r, t.verified r = true → s.verified r = true) :
    Sound h t := by
  intro r hr
  rw [hc]
  exact hs r (hv r hr)

theorem safely_of_quietly {ε α : Type} {a : Action (Session τ) ε α} (ha : Action.Moves (quietly h) a) :
    Action.Moves (safely h) a := ha.mono fun hq hs => hs.of_quietly h hq

/-! ### Single commands -/

/-- What the card executes for a command of the session. -/
theorem exchanged {c : Command} (hcla : c.cla = 0x00) (hins : c.ins ≠ 0xc0) (t : τ) :
    ∃ xs, h.done (transmit card c chunkSize t).2 = h.done t ++ xs ∧ Outcome c (transmit card c chunkSize t).1 xs := by
  refine Exchange.outcome_transmit h (fun hl => hl ?_) hins chunkSize t
  rw [hcla]
  rfl

/-- A command that neither selects nor verifies nor changes anything is quiet. -/
theorem moves_request {c : Command} (hcla : c.cla = 0x00) (hg : c.ins ≠ 0xc0) (hs : c.ins ≠ 0xa4) (hv : c.ins ≠ 0x20)
    (hc : c.ins ≠ 0x24) : Action.Moves (quietly h) (request card c) := by
  intro s
  obtain ⟨xs, hx, ho⟩ := exchanged h hcla hg s.card
  rw [run_request]
  rcases hr : transmit card c chunkSize s.card with ⟨e | a, t⟩
  all_goals
    rw [hr] at hx
    refine ⟨rfl, ?_⟩
    show held (h.done t) = _
    rw [hx]
    exact funext fun r => held_of_outcome ho fun x hk => spares_of_kind hk hs hv hc r

theorem moves_refreshStatus : Action.Moves (quietly h) (refreshStatus card) := by
  refine (moves_request h rfl (by decide) (by decide) (by decide) (by decide)).bind fun a => ?_
  refine (Action.Moves.ofExcept _ _).bind fun status => (Action.Moves.modify ?_).bind fun _ => .pure _
  exact fun s => ⟨rfl, rfl⟩

theorem moves_knownStatus : Action.Moves (quietly h) (knownStatus card) := by
  refine .get_bind fun s => ?_
  cases s.status with
  | some status => exact (quietly h).refl s
  | none => exact moves_refreshStatus h s

/-- A command that needs a PIN does on both sides what its exchange does, and succeeds where that does. -/
theorem requestFor_cases (r : PinReference) (c : Command) (s : Session τ) :
    (requestFor card r c s).2.verified = s.verified ∧
      held (h.done (requestFor card r c s).2.card) = held (h.done (transmit card c chunkSize s.card).2) ∧
      ((requestFor card r c s).1 = .ok () ↔
        ∃ a, (transmit card c chunkSize s.card).1 = .ok a ∧ a.isSuccess = true) := by
  rw [run_requestFor]
  rcases transmit card c chunkSize s.card with ⟨e | a, t⟩
  · exact ⟨rfl, rfl, by simp⟩
  · simp only
    split
    · rename_i ha
      exact ⟨rfl, rfl, by simp [ha]⟩
    · rename_i ha
      split
      · have hq := moves_refreshStatus h { s with card := t }
        rcases hr : refreshStatus card { s with card := t } with ⟨e | status, u⟩
        all_goals
          rw [hr] at hq
          exact ⟨hq.1, hq.2, by simp [ha]⟩
      · exact ⟨rfl, rfl, by simp [ha]⟩

/-! ### Calls that are safe -/

/-- A selection is forgotten with everything else, before it is sent. -/
theorem moves_select : Action.Moves (safely h) (select card) := by
  have hnone : ∀ s : Session τ, s.verified = (fun _ => false) → Sound h (selectConnected card s).2 := by
    intro s hs
    have hv : (selectConnected card s).2.verified = s.verified := by
      have hrequest : ∀ (c : Command) (s : Session τ), (request card c s).2.verified = s.verified := by
        intro c s
        rw [run_request]
        rcases transmit card c chunkSize s.card with ⟨e | a, t⟩ <;> rfl
      unfold selectConnected
      rw [Action.run_bind]
      rcases hr : request card (.select aid) s with ⟨e | a, t⟩
      · rw [← hrequest (.select aid) s, hr]
      · rw [← hrequest (.select aid) s, hr]
        exact (moves_refreshStatus h t).1
    intro r hr
    rw [hv, hs] at hr
    cases hr
  intro s hs
  rw [run_select]
  split
  · exact hnone _ rfl
  · rcases hc : card.connect s.card with ⟨e | x, t⟩
    · have hd := h.connects s.card e
      rw [hc] at hd
      intro r hr
      show held (h.done t) r = true
      rw [hd rfl]
      exact hs r hr
    · exact hnone _ rfl

/-- A PIN is verified only where it was not before. -/
theorem moves_verify (r : PinReference) (pin : Pin) : Action.Moves (safely h) (verify card r pin) := by
  intro s hs
  rw [run_verify]
  split
  · exact hs
  · rename_i hr
    obtain ⟨hv, hd, hok⟩ := requestFor_cases h r (verifyApdu r pin) s
    obtain ⟨xs, hx, ho⟩ := exchanged h (c := verifyApdu r pin) rfl (by decide : (0x20 : UInt8) ≠ 0xc0) s.card
    -- the other references are as they were, and this one was not verified
    have hothers : ∀ r', r' ≠ r → s.verified r' = true →
        held (h.done (requestFor card r (verifyApdu r pin) s).2.card) r' = true := by
      intro r' hne hr'
      rw [hd, hx, held_of_outcome ho fun x hk => spares_verifyApdu hne hk]
      exact hs r' hr'
    rcases hrun : requestFor card r (verifyApdu r pin) s with ⟨e | x, t⟩
    all_goals
      rw [hrun] at hv hd hok hothers
      intro r' hr'
      by_cases hne : r' = r
    · subst hne
      rw [show t.verified r' = s.verified r' from congrFun hv r'] at hr'
      exact absurd hr' hr
    · exact hothers r' hne (congrFun hv r' ▸ hr')
    · subst hne
      obtain ⟨a, ha, hsuccess⟩ := hok.mp rfl
      rw [ha] at ho
      show held (h.done t.card) r' = true
      rw [hd, hx]
      exact held_of_verified ho hsuccess
    · simp only [mark, hne, if_false] at hr'
      exact hothers r' hne (congrFun hv r' ▸ hr')

/-- The user PIN is set without anything being verified for it. -/
theorem moves_resetUserPin (admin new : Pin) : Action.Moves (safely h) (resetUserPin card admin new) := by
  have hrequest : Action.Moves (quietly h) (requestFor card .signing (resetUserApdu new)) := by
    intro s
    obtain ⟨hv, hd, -⟩ := requestFor_cases h .signing (resetUserApdu new) s
    obtain ⟨xs, hx, ho⟩ := exchanged h (c := resetUserApdu new) rfl (by decide : (0x2c : UInt8) ≠ 0xc0) s.card
    refine ⟨hv, hd.trans ?_⟩
    rw [hx]
    exact funext fun r => held_of_outcome ho fun x hk => spares_of_kind hk (by decide : (0x2c : UInt8) ≠ 0xa4)
      (by decide : (0x2c : UInt8) ≠ 0x20) (by decide : (0x2c : UInt8) ≠ 0x24) r
  refine (moves_verify h .admin admin).bind fun _ => (safely_of_quietly h (moves_knownStatus h)).bind fun status => ?_
  refine (Action.Moves.ofExcept _ _).bind fun _ => (safely_of_quietly h hrequest).bind fun _ => .modify fun s hs => ?_
  exact hs.of_forgets h rfl (by simp [resetVerification])

theorem safely_useSignature (hs : Sound h s) : Sound h s.useSignature := by
  unfold useSignature
  split
  · exact hs
  · refine hs.of_forgets h rfl fun r hr => ?_
    unfold mark at hr
    simp only at hr
    split at hr
    · cases hr
    · exact hr

/-! ### The call that is not -/

/-- The card has executed a command successfully, and the host does not hear of it. -/
def Lost (c : Command) (t : τ) : Prop :=
  (∃ x ∈ (h.done (transmit card c chunkSize t).2).drop (h.done t).length, x.successful = true ∧ SameKind x.command c) ∧
    ∀ a, (transmit card c chunkSize t).1 = .ok a → a.isSuccess = false

/-- The admin PIN, remembered as verified, is changed, and the answer is lost. -/
structure LosesChange (s : Session τ) (current new : Pin) : Prop where
  verified : s.verified .admin = true
  lost : ∃ status t, knownStatus card s = (.ok status, t) ∧ checkLength new adminMin status.adminMax = .ok () ∧
    Lost h (changeAdminApdu current new) t.card

/-- The command that changes the admin PIN, from a sound session: where the host hears of success, it forgets the PIN
in time; otherwise the PIN is remembered wrongly if the change was lost. -/
theorem sound_of_change (hs : Sound h s) (current new : Pin) :
    ((requestFor card .admin (changeAdminApdu current new) s).1 = .ok () →
      Sound h ((requestFor card .admin (changeAdminApdu current new) s).2.mark .admin false) ∧
        ¬ Lost h (changeAdminApdu current new) s.card) ∧
    ((requestFor card .admin (changeAdminApdu current new) s).1 ≠ .ok () →
      (Sound h (requestFor card .admin (changeAdminApdu current new) s).2 ↔
        ¬ (s.verified .admin = true ∧ Lost h (changeAdminApdu current new) s.card))) := by
  obtain ⟨hv, hd, hok⟩ := requestFor_cases h .admin (changeAdminApdu current new) s
  obtain ⟨xs, hx, ho⟩ := exchanged h (c := changeAdminApdu current new) rfl (by decide : (0x24 : UInt8) ≠ 0xc0) s.card
  have hlost : Lost h (changeAdminApdu current new) s.card ↔
      (∃ x ∈ xs, x.successful = true ∧ SameKind x.command (changeAdminApdu current new)) ∧
        (requestFor card .admin (changeAdminApdu current new) s).1 ≠ .ok () := by
    unfold Lost
    rw [hx, List.drop_left, Ne, hok]
    simp
  rw [hlost]
  generalize requestFor card .admin (changeAdminApdu current new) s = run at hv hd hok ⊢
  rw [hx] at hd
  -- the other references are as they were
  have hothers : ∀ r, r ≠ .admin → run.2.verified r = true → held (h.done run.2.card) r = true := by
    intro r hne hr
    rw [hd, held_of_outcome ho fun x hk => spares_changeAdminApdu hk (.inl hne)]
    exact hs r (congrFun hv r ▸ hr)
  constructor
  · intro hr
    refine ⟨fun r hm => ?_, fun hl => hl.2 hr⟩
    by_cases hne : r = .admin
    · simp [mark, hne] at hm
    · simp only [mark, hne, if_false] at hm
      exact hothers r hne hm
  · intro hr
    rw [← congrFun hv .admin]
    rcases held_of_changed (h.done s.card) ho with ⟨hnone, hsame⟩ | ⟨hsome, hgone⟩
    · refine iff_of_true (fun r hm => ?_) ?_
      · by_cases hne : r = .admin
        · subst hne
          rw [hd, hsame]
          exact hs _ (congrFun hv _ ▸ hm)
        · exact hothers r hne hm
      · rintro ⟨-, ⟨x, hmem, hsuccess, hk⟩, -⟩
        exact hnone x hmem hsuccess hk
    · constructor
      · rintro hu ⟨hver, -⟩
        have hheld := hu .admin hver
        rw [hd, hgone] at hheld
        cases hheld
      · intro hn r hm
        by_cases hne : r = .admin
        · subst hne
          exact absurd ⟨hm, hsome, hr⟩ hn
        · exact hothers r hne hm

/-- What is lost when the admin PIN is changed, once the status is known. -/
theorem losesChange_iff {status : PinStatus} {current new : Pin} (hk : knownStatus card s = (.ok status, t)) :
    LosesChange h s current new ↔ checkLength new adminMin status.adminMax = .ok () ∧ t.verified .admin = true ∧
      Lost h (changeAdminApdu current new) t.card := by
  have hq := moves_knownStatus h s
  rw [hk] at hq
  constructor
  · rintro ⟨hv, status', u, hu, hlen, hl⟩
    rw [hk] at hu
    cases hu
    exact ⟨hlen, congrFun hq.1 _ ▸ hv, hl⟩
  · rintro ⟨hlen, hv, hl⟩
    exact ⟨congrFun hq.1 _ ▸ hv, status, t, hk, hlen, hl⟩

/-- A session stays sound when the admin PIN is changed, unless the answer is lost. -/
theorem sound_changeAdminPin (hs : Sound h s) (current new : Pin) :
    (Sound h (changeAdminPin card current new s).2 ↔ ¬ LosesChange h s current new) ∧
      ((changeAdminPin card current new s).1 = .ok () → Sound h (changeAdminPin card current new s).2) := by
  have hq := moves_knownStatus h s
  rw [run_changeAdminPin]
  rcases hk : knownStatus card s with ⟨e | status, t⟩
  all_goals
    rw [hk] at hq
    have ht : Sound h t := hs.of_quietly h hq
  · refine ⟨iff_of_true ht fun hl => ?_, nofun⟩
    obtain ⟨status, u, hu, -⟩ := hl.lost
    rw [hk] at hu
    cases hu
  · rw [losesChange_iff h hk]
    simp only
    cases checkLength new adminMin status.adminMax with
    | error e => exact ⟨iff_of_true ht nofun, nofun⟩
    | ok x =>
      obtain ⟨hok, herror⟩ := sound_of_change h ht current new
      simp only [true_and]
      rcases hrun : requestFor card .admin (changeAdminApdu current new) t with ⟨e | y, u⟩
      all_goals rw [hrun] at hok herror
      · exact ⟨herror nofun, nofun⟩
      · obtain ⟨hu, hheard⟩ := hok rfl
        exact ⟨iff_of_true hu fun hl => hheard hl.2, fun _ => hu⟩

/-! ## Calls -/

/-- What the user of a session calls. -/
inductive Call
  | select
  | verify (r : PinReference) (pin : Pin)
  | changeAdminPin (current new : Pin)
  | resetUserPin (admin new : Pin)
  | changePins (admin newAdmin newUser : Pin)
  | useSignature
  | resetVerification

variable (card) in
/-- The session after a call. -/
def call (s : Session τ) : Call → Session τ
  | .select => (select card s).2
  | .verify r pin => (verify card r pin s).2
  | .changeAdminPin current new => (changeAdminPin card current new s).2
  | .resetUserPin admin new => (resetUserPin card admin new s).2
  | .changePins admin newAdmin newUser => (changePins card admin newAdmin newUser s).2
  | .useSignature => s.useSignature
  | .resetVerification => s.resetVerification

variable (card) in
/-- The session after several calls. -/
def after (s : Session τ) (calls : List Call) : Session τ := calls.foldl (call card) s

/-- A call changes the admin PIN, remembered as verified, and the answer is lost. -/
def Loses (s : Session τ) : Call → Prop
  | .changeAdminPin current new => LosesChange h s current new
  | .changePins admin newAdmin newUser =>
    ∃ status t, knownStatus card s = (.ok status, t) ∧ checkLength newAdmin adminMin status.adminMax = .ok () ∧
      checkLength newUser userMin status.userMax = .ok () ∧ LosesChange h t admin newAdmin
  | _ => False

/-- A session stays sound when both PINs are changed, unless the answer to the first change is lost. -/
theorem sound_changePins (hs : Sound h s) (admin newAdmin newUser : Pin) :
    Sound h (changePins card admin newAdmin newUser s).2 ↔ ¬ Loses h s (.changePins admin newAdmin newUser) := by
  have hq := moves_knownStatus h s
  rw [run_changePins]
  rcases hk : knownStatus card s with ⟨e | status, t⟩
  all_goals
    rw [hk] at hq
    have ht : Sound h t := hs.of_quietly h hq
  · refine iff_of_true ht ?_
    rintro ⟨status, u, hu, -⟩
    rw [hk] at hu
    cases hu
  · simp only
    have hloses : Loses h s (.changePins admin newAdmin newUser) ↔
        checkLength newAdmin adminMin status.adminMax = .ok () ∧ checkLength newUser userMin status.userMax = .ok () ∧
          LosesChange h t admin newAdmin := by
      constructor
      · rintro ⟨status', u, hu, hl⟩
        rw [hk] at hu
        cases hu
        exact hl
      · exact fun hl => ⟨status, t, hk, hl⟩
    rw [hloses]
    cases checkLength newAdmin adminMin status.adminMax with
    | error e => exact iff_of_true ht nofun
    | ok x =>
      cases checkLength newUser userMin status.userMax with
      | error e => exact iff_of_true ht nofun
      | ok y =>
        obtain ⟨hiff, hok⟩ := sound_changeAdminPin h ht admin newAdmin
        simp only [true_and]
        rw [Action.run_bind]
        rcases hrun : changeAdminPin card admin newAdmin t with ⟨e | z, u⟩
        all_goals rw [hrun] at hiff hok
        · exact hiff
        · have hu : Sound h u := hok rfl
          exact iff_of_true (moves_resetUserPin h newAdmin newUser u hu) (hiff.mp hu)

/-- A sound session stays sound in a call, unless that loses the answer to a change of the admin PIN. -/
theorem sound_call (hs : Sound h s) (c : Call) : Sound h (call card s c) ↔ ¬ Loses h s c := by
  cases c with
  | select => exact iff_of_true (moves_select h s hs) id
  | verify r pin => exact iff_of_true (moves_verify h r pin s hs) id
  | changeAdminPin current new => exact (sound_changeAdminPin h hs current new).1
  | resetUserPin admin new => exact iff_of_true (moves_resetUserPin h admin new s hs) id
  | changePins admin newAdmin newUser => exact sound_changePins h hs admin newAdmin newUser
  | useSignature => exact iff_of_true (safely_useSignature h hs) id
  | resetVerification => exact iff_of_true (hs.of_forgets h rfl nofun) id

/-- In every sequence of calls, whatever is lost on the link, the card holds verified what the session remembers as
verified, exactly as long as no call changes an admin PIN that is remembered as verified without hearing of it. -/
theorem verified_sound_iff (h : Accounting card) (t : τ) (calls : List Call) :
    (∀ front, front <+: calls → Sound h (after card (Session.new t) front)) ↔
      ∀ front c, front ++ [c] <+: calls → ¬ Loses h (after card (Session.new t) front) c := by
  have hstep : ∀ front c, after card (new t) (front ++ [c]) = call card (after card (Session.new t) front) c := by
    intro front c
    unfold after
    rw [List.foldl_append]
    rfl
  constructor
  · intro hall front c hp
    have hs := hall front ((List.prefix_append ..).trans hp)
    have hc := hall (front ++ [c]) hp
    rw [hstep] at hc
    exact (sound_call h hs c).mp hc
  · intro hall front
    -- the calls are taken off the end, so that the last one meets what the others left
    induction front using List.reverseRecOn with
    | nil => exact fun _ => nofun
    | append_singleton front c ih =>
      intro hp
      rw [hstep]
      exact (sound_call h (ih ((List.prefix_append ..).trans hp)) c).mpr (hall front c hp)

/-! ## A link that loses an answer -/

/-- A card that executes everything successfully, and which of its next answers are lost. -/
structure Losing where
  done : List Execution
  losses : List Bool

/-- A card whose answers are lost as told beforehand. All answers have the data that tell the status of the PINs. -/
def losing : Card Losing where
  connect := pure ()
  transceive c t :=
    if c.IsLink then (.ok (.status .success), t)
    else (if t.losses.headD false then .error .timeout else .ok (.ok [0, 32, 32, 32, 3, 3, 3]),
      ⟨t.done ++ [⟨c, true⟩], t.losses.tail⟩)
  release := id
  isConnected _ := true
  supportsExtended _ := true

/-- It accounts for what it has executed. -/
def accounting_losing : Accounting losing where
  done := Losing.done
  delivers c t := by
    unfold losing
    simp only
    by_cases hl : c.IsLink
    · rw [if_pos hl]
      exact .unexecuted fun _ _ _ => .inl hl
    · rw [if_neg hl]
      refine .executed true hl fun r hr => iff_of_true (.inl ?_) rfl
      split at hr
      · cases hr
      · rw [← Except.ok.inj hr]
        rfl
  connects _ _ _ := rfl

/-- The admin PIN is verified and then changed, and the answer to the verification is lost: nothing is remembered that
the change would have to make the session forget. -/
theorem sound_of_lost_verification :
    ∀ front, front <+: [.verify .admin ⟨"12345678"⟩, .changeAdminPin ⟨"12345678"⟩ ⟨"87654321"⟩] →
      Sound accounting_losing (after losing (Session.new ⟨[], [true]⟩) front) := by
  refine (verified_sound_iff accounting_losing ⟨[], [true]⟩ _).mpr fun front c hp hl => ?_
  rcases front with _ | ⟨first, _ | ⟨second, front⟩⟩
  · obtain ⟨rfl, -⟩ := List.cons_prefix_cons.mp hp
    exact hl
  · obtain ⟨rfl, hrest⟩ := List.cons_prefix_cons.mp hp
    obtain ⟨rfl, -⟩ := List.cons_prefix_cons.mp hrest
    exact absurd hl.verified (by decide +kernel)
  · have hlength := hp.length_le
    simp only [List.length_append, List.length_cons, List.length_nil] at hlength
    omega

/-- The admin PIN is verified and then changed, and the answer to the change is lost. -/
theorem not_sound_of_lost_change :
    ¬ ∀ front, front <+: [.verify .admin ⟨"12345678"⟩, .changeAdminPin ⟨"12345678"⟩ ⟨"87654321"⟩] →
      Sound accounting_losing (after losing (Session.new ⟨[], [false, false, true]⟩) front) := by
  intro h
  have hheld := h _ List.prefix_rfl .admin (by decide +kernel)
  revert hheld
  decide +kernel

end Session

end SecurityKey.OpenPgp
