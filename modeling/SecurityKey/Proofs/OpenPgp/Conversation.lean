import SecurityKey.Proofs.Exchange.Dialogue
import SecurityKey.Proofs.OpenPgp.Runs

/-!
# What an OpenPGP session says to its card

- `Says card a s Q`: an action exchanges commands with the card as `Q` tells, with its result and the session it leaves;
- `Refusal answer e`: the error that the answer to a command comes to;
- `Stepped c P`: one command is said. Where it is accepted `P` holds of the session, and where it is not the answer
  tells why, and nothing but the status of the card is asked for (`says_requestFor`);
- each operation on a known status is one step or two (`says_verify`, `says_changeAdminPin`, `says_setUserPin`).
-/

namespace SecurityKey.OpenPgp.Session

open Exchange (Conducts Dialogue Exchanged)

variable {σ α : Type} {card : Card σ}

/-- An action exchanges commands with the card as told, with its result and the session it leaves. -/
abbrev Says (card : Card σ) (a : Action (Session σ) Error α) (s : Session σ)
    (Q : List Exchanged → Except Error α → Session σ → Prop) : Prop :=
  Conducts card chunkSize Session.card a s Q

/-! ## Questions for the status -/

/-- Nothing but the status of the card is asked for. -/
def OnlyAsks (xs : List Exchanged) : Prop := ∀ x ∈ xs, x.command = statusApdu

theorem OnlyAsks.nil : OnlyAsks [] := List.forall_mem_nil _

variable {s : Session σ} {r : PinReference} {c : Apdu.Command}

/-- One command is handed over, and the session keeps what it knows. -/
theorem says_transmit : Says card (onCard (Exchange.transmit card c chunkSize)) s fun xs answer t =>
    xs = [⟨c, answer⟩] ∧ t.status = s.status ∧ t.verified = s.verified :=
  ⟨[⟨c, (Exchange.transmit card c chunkSize s.card).1⟩], .exchange rfl (.nil _), rfl, rfl, rfl⟩

theorem says_request : Says card (request card c) s fun xs _ t =>
    (∃ answer, xs = [⟨c, answer⟩]) ∧ t.status = s.status ∧ t.verified = s.verified := by
  refine says_transmit.bind ?_ ?_
  · rintro t xs e ⟨hxs, ht⟩
    exact ⟨⟨_, hxs⟩, ht⟩
  · rintro t xs a - ⟨rfl, ht⟩
    split <;> exact .quiet rfl ⟨⟨_, rfl⟩, ht⟩

/-- The status is asked for once, and remembered where it is told. -/
theorem says_refreshStatus : Says card (refreshStatus card) s fun xs result t =>
    OnlyAsks xs ∧ t.verified = s.verified ∧ ∀ status, result = .ok status → t.status = some status := by
  have hone : ∀ answer, OnlyAsks [⟨statusApdu, answer⟩] := fun _ x hx => List.mem_singleton.mp hx ▸ rfl
  refine (says_request (c := statusApdu)).bind ?_ ?_
  · rintro t xs e ⟨⟨answer, rfl⟩, -, ht⟩
    exact ⟨hone answer, ht, fun _ h => nomatch h⟩
  · rintro t xs a - ⟨⟨answer, rfl⟩, -, ht⟩
    refine .ofExcept_bind (fun e => ⟨hone answer, ht, fun _ h => nomatch h⟩) fun status _ => .quiet rfl ?_
    exact ⟨hone answer, ht, fun status h => congrArg some (Except.ok.inj h)⟩

/-- A status that is known is not asked for. -/
theorem run_knownStatus_of_known {status : PinStatus} (h : s.status = some status) :
    knownStatus card s = (.ok status, s) := by
  unfold knownStatus
  rw [Action.run_bind, Action.run_get]
  simp only [h]
  rfl

theorem says_knownStatus : Says card (knownStatus card) s fun xs result t =>
    OnlyAsks xs ∧ t.verified = s.verified ∧ ∀ status, result = .ok status → t.status = some status := by
  cases hs : s.status with
  | some status =>
    refine .of_run (b := pure status) (run_knownStatus_of_known hs) rfl (.quiet rfl ⟨.nil, rfl, ?_⟩)
    rintro status' h
    cases h
    exact hs
  | none =>
    refine .of_run (b := refreshStatus card) ?_ rfl says_refreshStatus
    unfold knownStatus
    rw [Action.run_bind, Action.run_get]
    simp only [hs]

/-- Asking how many attempts are left is asking for the status, and never fails. -/
theorem says_readRetries : Says card (readRetries card r) s fun xs result _ => OnlyAsks xs ∧ ∃ n, result = .ok n := by
  obtain ⟨xs, hx, hasks, -, -⟩ : Says card (refreshStatus card) s _ := says_refreshStatus
  refine ⟨xs, ?_⟩
  rw [run_readRetries]
  rcases h : refreshStatus card s with ⟨e | status, t⟩
  all_goals
    rw [h] at hx
    exact ⟨hx, hasks, _, rfl⟩

/-! ## Steps -/

/-- The error that an answer to a command comes to: none came, a wrong PIN was given, or its status word says it. -/
inductive Refusal : Except Error Apdu.Response → Error → Prop
  | lost (e : Error) : Refusal (.error e) e
  | unsatisfied {a : Apdu.Response} (h : a.sw = .securityStatusNotSatisfied) (retries : Option UInt8) :
      Refusal (.ok a) (attemptsError retries)
  | refused {a : Apdu.Response} (h : a.sw ≠ .success) : Refusal (.ok a) (statusError a.sw)

/-- What is said when one command is carried out. -/
inductive Stepped (c : Apdu.Command) (P : Session σ → Prop) : List Exchanged → Except Error Unit → Session σ → Prop
  | accepted {data : Bytes} {t : Session σ} (ht : P t) : Stepped c P [⟨c, .ok (.ok data)⟩] (.ok ()) t
  | refused {answer : Except Error Apdu.Response} {e : Error} {xs : List Exchanged} {t : Session σ}
      (h : Refusal answer e) (hxs : OnlyAsks xs) : Stepped c P (⟨c, answer⟩ :: xs) (.error e) t

/-- A command that needs a PIN is one step. -/
theorem says_requestFor : Says card (requestFor card r c) s
    (Stepped c fun t => t.status = s.status ∧ t.verified = s.verified) := by
  refine says_transmit.bind ?_ ?_
  · rintro t xs e ⟨rfl, -⟩
    exact .refused (.lost e) .nil
  · rintro t xs a - ⟨rfl, ht⟩
    split
    · rename_i hsuccess
      have hsw : a.sw = .success := of_decide_eq_true hsuccess
      have ha : a = .ok a.data := by rw [Apdu.Response.ok, ← hsw]
      rw [ha]
      exact .quiet rfl (.accepted ht)
    rename_i hfailure
    split
    · rename_i hsw
      refine (says_readRetries (r := r)).bind ?_ ?_
      · rintro t xs e ⟨-, n, ⟨⟩⟩
      · rintro u ys retries - ⟨hasks, -⟩
        refine .quiet rfl ?_
        rw [List.append_nil]
        exact .refused (.unsatisfied hsw retries) hasks
    · exact .quiet rfl (.refused (.refused fun hsw => hfailure (decide_eq_true hsw)) .nil)

/-- So is one after which the session is changed. -/
theorem says_requestFor_modify {f : Session σ → Session σ} {P : Session σ → Prop} (hcard : ∀ t, (f t).card = t.card)
    (hP : ∀ t, t.status = s.status → t.verified = s.verified → P (f t)) :
    Says card (do requestFor card r c; modify f) s (Stepped c P) := by
  refine says_requestFor.bind ?_ ?_
  · rintro t xs e (_ | ⟨h, hasks⟩)
    exact .refused h hasks
  · rintro t xs x - (⟨ht⟩ | _)
    exact .quiet (hcard t) (.accepted (hP t ht.1 ht.2))

/-- A PIN that is not verified yet is verified in one step. -/
theorem says_verify {pin : Pin} (h : s.verified r = false) :
    Says card (verify card r pin) s (Stepped (verifyApdu r pin) fun t => t.status = s.status) := by
  refine .of_run (b := do requestFor card r (verifyApdu r pin); modify (mark r true)) ?_ rfl
    (says_requestFor_modify (fun _ => rfl) fun t ht _ => ht)
  unfold verify
  rw [Action.run_bind, Action.run_get]
  simp only [h, Bool.false_eq_true, if_false]

/-- An admin PIN of an allowed length is changed in one step, and not verified any more. -/
theorem says_changeAdminPin {current new : Pin} {status : PinStatus} (hs : s.status = some status)
    (hlength : checkLength new adminMin status.adminMax = .ok ()) :
    Says card (changeAdminPin card current new) s
      (Stepped (changeAdminApdu current new) fun t => t.status = some status ∧ t.verified .admin = false) := by
  refine .of_run (b := do requestFor card .admin (changeAdminApdu current new); modify (mark .admin false)) ?_ rfl
    (says_requestFor_modify (fun _ => rfl) fun t ht _ => ⟨ht.trans hs, rfl⟩)
  unfold changeAdminPin
  rw [Action.bind_of_ok (run_knownStatus_of_known hs), hlength]
  rfl

/-- The user PIN set anew, once the admin PIN is verified. -/
def setUserPin (card : Card σ) (new : Pin) : Action (Session σ) Error Unit := do
  let status ← knownStatus card
  Action.ofExcept id (checkLength new userMin status.userMax)
  requestFor card .signing (resetUserApdu new)
  modify resetVerification

theorem resetUserPin_eq (admin new : Pin) :
    resetUserPin card admin new = verify card .admin admin >>= fun _ => setUserPin card new := rfl

/-- A user PIN of an allowed length is set in one step. -/
theorem says_setUserPin {new : Pin} {status : PinStatus} (hs : s.status = some status)
    (hlength : checkLength new userMin status.userMax = .ok ()) :
    Says card (setUserPin card new) s (Stepped (resetUserApdu new) fun _ => True) := by
  refine .of_run (b := do requestFor card .signing (resetUserApdu new); modify resetVerification) ?_ rfl
    (says_requestFor_modify (fun _ => rfl) fun _ _ _ => trivial)
  unfold setUserPin
  rw [Action.bind_of_ok (run_knownStatus_of_known hs), hlength]
  rfl

end SecurityKey.OpenPgp.Session
