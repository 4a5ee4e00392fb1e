import SecurityKey.Proofs.OpenPgp.Conversation

/-!
# Both PINs changed in order

To change both PINs takes three commands, and a card must not be left between them but where it wanted to.

- `steps` are the three commands, and `handed` are the exchanges apart from questions for the status;
- `Carried` lists how far a sequence of commands gets: to its end, or to the first command that is not accepted. It
  grows by one step at a time (`says_bind_of_stepped`);
- `InOrder` says what that keeps to (`Carried.inOrder`): a command is handed over only after the one before was
  accepted, and a failure is what the answer to the last one comes to. `changePins_inOrder` has it of the operation,
  which begins unless it is `Hindered`.
-/

namespace SecurityKey.OpenPgp.Session

open Apdu (Command)
open Exchange (Dialogue Exchanged Recorded Serves recording)

/-! ## Commands handed over -/

/-- The commands that change both PINs: the admin PIN is changed, the new one is verified, and the user PIN is set. -/
def steps (admin newAdmin newUser : Pin) : List Command :=
  [(Command.header 0x00 0x24 0x00 0x83).withData (admin.bytes ++ newAdmin.bytes),
    (Command.header 0x00 0x20 0x00 0x83).withData newAdmin.bytes,
    (Command.header 0x00 0x2c 0x02 0x81).withData newUser.bytes]

theorem steps_eq (admin newAdmin newUser : Pin) : steps admin newAdmin newUser =
    [changeAdminApdu admin newAdmin, verifyApdu .admin newAdmin, resetUserApdu newUser] := rfl

/-- They are no questions for the status. -/
theorem ne_statusApdu_of_mem_steps {admin newAdmin newUser : Pin} {c : Command}
    (h : c ∈ steps admin newAdmin newUser) : c ≠ statusApdu := by
  have hins : ∀ c ∈ steps admin newAdmin newUser, c.ins ≠ statusApdu.ins := by
    simp [steps, statusApdu, Command.header, Command.withData, Command.withNe]
  exact fun heq => hins c h (congrArg Command.ins heq)

/-- The exchanges but for questions for the status. -/
def handed (xs : List Exchanged) : List Exchanged := xs.filter fun x => x.command ≠ statusApdu

theorem handed_append (xs ys : List Exchanged) : handed (xs ++ ys) = handed xs ++ handed ys := List.filter_append ..

theorem handed_cons {x : Exchanged} (h : x.command ≠ statusApdu) (xs : List Exchanged) :
    handed (x :: xs) = x :: handed xs := List.filter_cons_of_pos (decide_eq_true h)

theorem OnlyAsks.handed_eq_nil {xs : List Exchanged} (h : OnlyAsks xs) : handed xs = [] := by
  refine List.filter_eq_nil_iff.mpr fun x hx => ?_
  rw [decide_eq_true_eq]
  exact fun hne => hne (h x hx)

/-- A command ended with the status word of success. -/
def Accepted (x : Exchanged) : Prop := ∃ data, x.answer = .ok (.ok data)

theorem Refusal.not_accepted {x : Exchanged} {e : Error} (h : Refusal x.answer e) : ¬ Accepted x := by
  rintro ⟨data, hx⟩
  rw [hx] at h
  cases h with
  | unsatisfied h _ => cases h
  | refused h => exact h rfl

/-! ## Sequences of commands -/

/-- How far a sequence of commands is carried, with what result. -/
inductive Carried (cs : List Command) : List Exchanged → Except Error Unit → Prop
  | whole {ys : List Exchanged} (hcs : ys.map (·.command) = cs) (ha : ∀ y ∈ ys, Accepted y) : Carried cs ys (.ok ())
  | part {ys : List Exchanged} {x : Exchanged} {e : Error} (hcs : (ys ++ [x]).map (·.command) <+: cs)
      (ha : ∀ y ∈ ys, Accepted y) (h : Refusal x.answer e) : Carried cs (ys ++ [x]) (.error e)

/-- Of a sequence of commands at least one is handed over. -/
theorem Carried.ne_nil {cs : List Command} {ys : List Exchanged} {result : Except Error Unit}
    (h : Carried cs ys result) (hcs : cs ≠ []) : ys ≠ [] := by
  cases h with
  | whole h _ =>
    rintro rfl
    exact hcs h.symm
  | part _ _ _ => exact List.concat_ne_nil _ _

/-- One more command in front, which is accepted. -/
theorem Carried.cons {cs : List Command} {ys : List Exchanged} {result : Except Error Unit} {x : Exchanged}
    (h : Carried cs ys result) (hx : Accepted x) : Carried (x.command :: cs) (x :: ys) result := by
  have hall : ∀ {zs : List Exchanged}, (∀ z ∈ zs, Accepted z) → ∀ z ∈ x :: zs, Accepted z :=
    fun ha => List.forall_mem_cons.mpr ⟨hx, ha⟩
  cases h with
  | whole hcs ha => exact .whole (congrArg (x.command :: ·) hcs) (hall ha)
  | @part ys y e hcs ha h =>
    show Carried (x.command :: cs) ((x :: ys) ++ [y]) (.error e)
    exact .part (List.cons_prefix_cons.mpr ⟨rfl, hcs⟩) (hall ha) h

variable {σ : Type} {card : Card σ} {s : Session σ} {c : Command} {cs : List Command} {P : Session σ → Prop}

/-- A command that is not accepted is the last one. -/
theorem Carried.of_refusal (hc : c ≠ statusApdu) {answer : Except Error Apdu.Response} {e : Error}
    {xs : List Exchanged} (h : Refusal answer e) (hxs : OnlyAsks xs) :
    Carried (c :: cs) (handed (⟨c, answer⟩ :: xs)) (.error e) := by
  rw [handed_cons hc, hxs.handed_eq_nil]
  show Carried (c :: cs) ([] ++ [⟨c, answer⟩]) (.error e)
  exact .part (List.cons_prefix_cons.mpr ⟨rfl, List.nil_prefix⟩) (List.forall_mem_nil _) h

theorem Carried.of_stepped (hc : c ≠ statusApdu) {xs : List Exchanged} {result : Except Error Unit} {t : Session σ}
    (h : Stepped c P xs result t) : Carried [c] (handed xs) result := by
  cases h with
  | @accepted data _ _ =>
    rw [handed_cons hc]
    exact .whole rfl (List.forall_mem_singleton.mpr ⟨data, rfl⟩)
  | refused h hxs => exact .of_refusal hc h hxs

/-- A step and the commands after it. -/
theorem says_bind_of_stepped {a : Action (Session σ) Error Unit} {f : Unit → Action (Session σ) Error Unit}
    (hc : c ≠ statusApdu) (ha : Says card a s (Stepped c P))
    (hf : ∀ t, P t → Says card (f ()) t fun xs result _ => Carried cs (handed xs) result) :
    Says card (a >>= f) s fun xs result _ => Carried (c :: cs) (handed xs) result := by
  refine ha.bind ?_ ?_
  · rintro t xs e (_ | ⟨h, hxs⟩)
    exact .of_refusal hc h hxs
  · rintro t xs x - (@⟨data, _, ht⟩ | _)
    refine (hf t ht).mono fun ys result u h => ?_
    rw [handed_append, handed_cons hc]
    exact h.cons (x := ⟨c, .ok (.ok data)⟩) ⟨data, rfl⟩

/-! ## Both PINs -/

/-- Commands are handed over in the order that is planned, each one only after the one before was accepted. All goes
well exactly where all are, and where it does not the answer to the last one is why. None is handed over where it is
hindered from the start. -/
structure InOrder (planned : List Command) (Hinders : Error → Prop) (ys : List Exchanged)
    (result : Except Error Unit) : Prop where
  isPrefix : ys.map (·.command) <+: planned
  guarded : ∀ front x, ys = front ++ [x] → ∀ y ∈ front, Accepted y
  ok_iff : result = .ok () ↔ ys.map (·.command) = planned ∧ ∀ y ∈ ys, Accepted y
  failed : ∀ e front x, result = .error e → ys = front ++ [x] → Refusal x.answer e
  unbegun : ys = [] → ∃ e, result = .error e ∧ Hinders e

variable {Hinders : Error → Prop}

theorem Carried.inOrder {ys : List Exchanged} {result : Except Error Unit} (h : Carried cs ys result) (hne : cs ≠ []) :
    InOrder cs Hinders ys result := by
  have hys : ys ≠ [] := h.ne_nil hne
  cases h with
  | whole hcs ha =>
    refine ⟨hcs ▸ List.prefix_rfl, ?_, iff_of_true rfl ⟨hcs, ha⟩, fun _ _ _ h => (nomatch h), (absurd · hys)⟩
    rintro front x rfl y hy
    exact ha y (List.mem_append_left _ hy)
  | @part ys x e hcs ha h =>
    refine ⟨hcs, ?_, iff_of_false nofun fun hall => ?_, ?_, (absurd · hys)⟩
    · intro front x' hys y hy
      rw [← (List.append_inj' hys rfl).1] at hy
      exact ha y hy
    · exact h.not_accepted (hall.2 x (List.mem_append_right _ (List.mem_singleton_self x)))
    · rintro e' front x' ⟨⟩ hys
      obtain rfl := (List.cons.inj (List.append_inj' hys rfl).2).1
      exact h

/-- Where it is hindered nothing is handed over. -/
theorem InOrder.of_hinders (hcs : cs ≠ []) {e : Error} (h : Hinders e) : InOrder cs Hinders [] (.error e) where
  isPrefix := List.nil_prefix
  guarded _ _ hys := absurd hys.symm (List.concat_ne_nil _ _)
  ok_iff := iff_of_false nofun fun hall => hcs hall.1.symm
  failed _ _ _ _ hys := absurd hys.symm (List.concat_ne_nil _ _)
  unbegun _ := ⟨e, rfl, h⟩

/-- What hinders that both PINs are changed: the status does not become known, or it does not allow one of them. -/
inductive Hindered (card : Card σ) (s : Session σ) (newAdmin newUser : Pin) : Error → Prop
  | status {e : Error} (h : (knownStatus card s).1 = .error e) : Hindered card s newAdmin newUser e
  | admin {status : PinStatus} {e : Error} (h : (knownStatus card s).1 = .ok status)
      (hlength : checkLength newAdmin adminMin status.adminMax = .error e) : Hindered card s newAdmin newUser e
  | user {status : PinStatus} {e : Error} (h : (knownStatus card s).1 = .ok status)
      (hlength : checkLength newUser userMin status.userMax = .error e) : Hindered card s newAdmin newUser e

/-- On a card whose status is known and allows both PINs, the three commands are carried as far as they are accepted. -/
theorem says_steps {admin newAdmin newUser : Pin} {status : PinStatus} (hs : s.status = some status)
    (hadmin : checkLength newAdmin adminMin status.adminMax = .ok ())
    (huser : checkLength newUser userMin status.userMax = .ok ()) :
    Says card (changeAdminPin card admin newAdmin >>= fun _ => resetUserPin card newAdmin newUser) s
      fun xs result _ => Carried (steps admin newAdmin newUser) (handed xs) result := by
  have hne : ∀ c ∈ steps admin newAdmin newUser, c ≠ statusApdu := fun _ => ne_statusApdu_of_mem_steps
  rw [steps_eq] at hne ⊢
  refine says_bind_of_stepped (hne _ (.head _)) (says_changeAdminPin hs hadmin) fun t ht => ?_
  -- the new admin PIN is not verified yet, whatever was before
  rw [resetUserPin_eq]
  refine says_bind_of_stepped (hne _ (.tail _ (.head _))) (says_verify ht.2) fun u hu => ?_
  refine (says_setUserPin (hu.trans ht.1) huser).mono fun xs result _ h => ?_
  exact .of_stepped (hne _ (.tail _ (.tail _ (.head _)))) h

theorem says_changePins (admin newAdmin newUser : Pin) : Says card (changePins card admin newAdmin newUser) s
    fun xs result _ =>
      InOrder (steps admin newAdmin newUser) (Hindered card s newAdmin newUser) (handed xs) result := by
  have hne : steps admin newAdmin newUser ≠ [] := List.cons_ne_nil _ _
  have hhindered : ∀ {xs : List Exchanged} {e : Error}, OnlyAsks xs → Hindered card s newAdmin newUser e →
      InOrder (steps admin newAdmin newUser) (Hindered card s newAdmin newUser) (handed xs) (.error e) := by
    intro xs e hasks he
    rw [hasks.handed_eq_nil]
    exact .of_hinders hne he
  refine says_knownStatus.and_run.bind ?_ ?_
  · rintro t xs e ⟨⟨hasks, -⟩, hrun⟩
    exact hhindered hasks (.status (congrArg Prod.fst hrun))
  · rintro t xs status - ⟨⟨hasks, -, ht⟩, hrun⟩
    have hknown : (knownStatus card s).1 = .ok status := congrArg Prod.fst hrun
    have hquiet : OnlyAsks (xs ++ []) := by rwa [List.append_nil]
    cases hadmin : checkLength newAdmin adminMin status.adminMax with
    | error e => exact .quiet rfl (hhindered hquiet (.admin hknown hadmin))
    | ok _ =>
      cases huser : checkLength newUser userMin status.userMax with
      | error e => exact .quiet rfl (hhindered hquiet (.user hknown huser))
      | ok _ =>
        refine (says_steps (ht status rfl) hadmin huser).mono fun ys result _ h => ?_
        rw [handed_append, hasks.handed_eq_nil]
        exact h.inOrder hne

/-- **Both PINs are changed in order.** Whatever a session remembers and whatever a card does, but for questions for the
status the host hands over the change of the admin PIN, the verification of the new one and the new user PIN, in this
order, each once and only after the one before ended with success. It succeeds exactly where all three did. Once the
first is handed over, a failure is what the answer to the last one comes to: no check of the host's own makes it fail.
The first is handed over unless the status does not become known or does not allow one of the PINs. Whatever APDU is
sent serves one of the exchanges. -/
theorem changePins_inOrder {σ : Type} (card : Card σ) (admin newAdmin newUser : Pin) (s : Session (Recorded σ)) :
    ∃ xs, Dialogue (recording card) chunkSize s.card xs (changePins (recording card) admin newAdmin newUser s).2.card ∧
      InOrder (steps admin newAdmin newUser) (Hindered (recording card) s newAdmin newUser) (handed xs)
        (changePins (recording card) admin newAdmin newUser s).1 ∧
      ∃ apdus, (changePins (recording card) admin newAdmin newUser s).2.card.sent = s.card.sent ++ apdus ∧
        ∀ a ∈ apdus, ∃ x ∈ xs, Serves x.command a := by
  have hsays : Says (recording card) (changePins (recording card) admin newAdmin newUser) s fun xs result _ =>
      InOrder (steps admin newAdmin newUser) (Hindered (recording card) s newAdmin newUser) (handed xs) result :=
    says_changePins admin newAdmin newUser
  obtain ⟨xs, hx, horder⟩ := hsays
  exact ⟨xs, hx, horder, hx.sent⟩

end SecurityKey.OpenPgp.Session
