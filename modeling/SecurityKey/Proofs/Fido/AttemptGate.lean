import SecurityKey.Proofs.Crypto.PinProtocol
import SecurityKey.Proofs.Fido.Issuance

/-!
# Attempts are gated

A wrong PIN costs an attempt, and an authenticator without attempts is locked. So the host asks how many there are,
and goes on only if there is one to use.

- `counter?` reads the number of attempts from an answer, and `MayTry` says whether it allows one more;
- `Course` lists what may be asked, with what result, to submit a PIN (`says_getPinToken_course`,
  `says_changePin_course`);
- `Gated` says what every such course keeps to (`Course.gated`): a PIN is submitted at most once, and only after both
  answers allowed it. `submissions_gated` has it of the operations.
-/

namespace SecurityKey.Fido

open Ctap (ClientPin PinSubcommand)
open Exchange (Dialogue Exchanged Recorded Serves recording)
open Session (Says ctap2Apdu)

namespace Pin

/-! ## Answers -/

/-- How many attempts an answer says there are. -/
def counter? (answer : Except Error Apdu.Response) : Option UInt64 := do
  let r ← (readAnswer answer).toOption
  r.retries

/-- There is an attempt to use, however large the counter: at least two are left, or the last one with the caller's
consent. -/
def MayTry (n : UInt64) (lastAttemptOk : Bool) : Prop := 2 ≤ n ∨ n = 1 ∧ lastAttemptOk = true

/-- Why no attempt is used, if none is. -/
def denial? (n : UInt64) (lastAttemptOk : Bool) : Option Error :=
  if n = 0 then some .blocked else if n = 1 ∧ lastAttemptOk = false then some .lastAttempt else none

theorem denial?_eq_none_iff {n : UInt64} {lastAttemptOk : Bool} :
    denial? n lastAttemptOk = none ↔ MayTry n lastAttemptOk := by
  have hle : 2 ≤ n ↔ 2 ≤ n.toNat := UInt64.le_iff_toNat_le
  have hzero : n = 0 ↔ n.toNat = 0 := UInt64.toNat_inj.symm
  have hone : n = 1 ↔ n.toNat = 1 := UInt64.toNat_inj.symm
  have hcases : n.toNat = 0 ∨ n.toNat = 1 ∨ 2 ≤ n.toNat := by omega
  rw [MayTry, denial?, hle]
  simp only [hzero, hone]
  rcases hcases with h | h | h
  · simp [h]
  · cases lastAttemptOk <;> simp [h]
  · have h0 : n.toNat ≠ 0 := by omega
    have h1 : n.toNat ≠ 1 := by omega
    simp [h0, h1, h]

/-- A counter that does not fit is cut off above every number that it is compared with. -/
theorem counted_eq_iff {n m : UInt64} (hm : m.toNat < 255) :
    UInt8.ofNat (min n.toNat 255) = UInt8.ofNat m.toNat ↔ n = m := by
  rw [← UInt8.toNat_inj, UInt8.toNat_ofNat', UInt8.toNat_ofNat', Nat.mod_eq_of_lt (by omega),
    Nat.mod_eq_of_lt (by omega), ← UInt64.toNat_inj]
  omega

/-- What an agreement comes to is a session key. -/
theorem exists_shared_of_agreement? {config : Config} {secret : Option Bytes} {made : Nat}
    {answer : Except Error Apdu.Response} {a : Agreement} (h : agreement? config secret made answer = some a) :
    ∃ shared, a.sessionKey = Crypto.PinProtocol.sessionKey shared := by
  obtain ⟨r, device, k, -, -, -, hwith⟩ := agreement?_eq_some_iff.mp h
  obtain ⟨shared, -, hmade⟩ := Action.bind_eq_ok_iff.mp hwith
  cases hmade
  exact ⟨shared, rfl⟩

/-! ## Requests and answers -/

/-- A PIN request and the whole answer to it. -/
structure Asked where
  request : ClientPin
  answer : Except Error Apdu.Response

namespace Asked

/-- The question for the attempts. -/
def retries (answer : Except Error Apdu.Response) : Asked := ⟨.getRetries protocol, answer⟩

/-- The question for the authenticator's key. -/
def key (answer : Except Error Apdu.Response) : Asked := ⟨.getKeyAgreement protocol, answer⟩

/-- The exchange that takes place. -/
def exchanged (x : Asked) : Exchanged := ⟨ctap2Apdu x.request.toBytes, x.answer⟩

/-- The current PIN is submitted, which costs an attempt if it is wrong. -/
def Submits (x : Asked) : Prop := x.request.subcommand = .getPinToken ∨ x.request.subcommand = .changePin

instance (x : Asked) : Decidable x.Submits := inferInstanceAs (Decidable (_ ∨ _))

@[simp]
theorem not_submits_retries (answer : Except Error Apdu.Response) : ¬ (retries answer).Submits := by
  rintro (h | h) <;> cases h

@[simp]
theorem not_submits_key (answer : Except Error Apdu.Response) : ¬ (key answer).Submits := by
  rintro (h | h) <;> cases h

end Asked

/-! ## What the operations ask -/

section Course

variable {σ α : Type} {card : Card σ} {config : Config} {secret : Option Bytes} {lastAttemptOk : Bool}

theorem says_getRetries (s : Session σ) : Says card config (getRetries card config) s fun xs result =>
    ∃ answer, xs = [(Asked.retries answer).exchanged] ∧
      result.toOption = (counter? answer).map fun n => .ofNat (min n.toNat 255) := by
  refine (says_request _ s).bind ?_ ?_
  · rintro xs e ⟨answer, rfl, h⟩
    refine ⟨answer, rfl, ?_⟩
    rw [counter?, ← h]
    rfl
  · rintro t xs r - ⟨answer, rfl, h⟩
    have hcounter : counter? answer = r.retries := by
      rw [counter?, ← h]
      rfl
    cases hr : r.retries with
    | none => exact .quiet rfl ⟨answer, rfl, by rw [hcounter, hr]; rfl⟩
    | some n => exact .quiet rfl ⟨answer, rfl, by rw [hcounter, hr]; rfl⟩

/-- What the check of the attempts may come to. -/
inductive Checked (lastAttemptOk : Bool) (answer : Except Error Apdu.Response) : Except Error UInt8 → Prop
  | uncounted (e : Error) (h : counter? answer = none) : Checked lastAttemptOk answer (.error e)
  | denied {n : UInt64} {e : Error} (h : counter? answer = some n) (hdenial : denial? n lastAttemptOk = some e) :
      Checked lastAttemptOk answer (.error e)
  | allowed {n : UInt64} (h : counter? answer = some n) (hmay : MayTry n lastAttemptOk) :
      Checked lastAttemptOk answer (.ok (.ofNat (min n.toNat 255)))

theorem Checked.exists_counter {answer : Except Error Apdu.Response} {before : UInt8}
    (h : Checked lastAttemptOk answer (.ok before)) : ∃ n, counter? answer = some n ∧ MayTry n lastAttemptOk := by
  cases h with
  | allowed h hmay => exact ⟨_, h, hmay⟩

/-- Whether the check of the attempts lets pass depends on their number alone. -/
theorem says_checkRetries (s : Session σ) : Says card config (checkRetries card config lastAttemptOk) s fun xs result =>
    ∃ answer, xs = [(Asked.retries answer).exchanged] ∧ Checked lastAttemptOk answer result := by
  refine (says_getRetries s).bind ?_ ?_
  · rintro xs e ⟨answer, rfl, h⟩
    exact ⟨answer, rfl, .uncounted e (Option.map_eq_none_iff.mp h.symm)⟩
  · rintro t xs m - ⟨answer, rfl, h⟩
    obtain ⟨n, hn, rfl⟩ := Option.map_eq_some_iff.mp h.symm
    have hzero : UInt8.ofNat (min n.toNat 255) = 0 ↔ n = 0 := counted_eq_iff (m := 0) (by decide)
    have hone : UInt8.ofNat (min n.toNat 255) = 1 ↔ n = 1 := counted_eq_iff (m := 1) (by decide)
    simp only [hzero, hone, Bool.and_eq_true, decide_eq_true_eq, Bool.not_eq_true']
    split
    · rename_i h0
      exact .quiet rfl ⟨answer, rfl, .denied hn (if_pos h0)⟩
    · rename_i h0
      split
      · rename_i h1
        exact .quiet rfl ⟨answer, rfl, .denied hn ((if_neg h0).trans (if_pos h1))⟩
      · rename_i h1
        exact .quiet rfl ⟨answer, rfl, .allowed hn (denial?_eq_none_iff.mp ((if_neg h0).trans (if_neg h1)))⟩

theorem keysMade_checkRetries {s t : Session σ} {result : Except Error UInt8}
    (h : checkRetries card config lastAttemptOk s = (result, t)) : t.keysMade = s.keysMade :=
  (moves_checkRetries (Session.permits_keepingKeys card config) (fun _ => trivial) lastAttemptOk).of_run h

/-! ## Courses -/

/-- What may be asked, and with what result, to submit a PIN with a request of some kind. The host may be ready for
it or not. -/
inductive Course (config : Config) (secret : Option Bytes) (made : Nat) (lastAttemptOk : Bool)
    (ready : Except Error Unit) (kind : PinSubcommand) : List Asked → Except Error α → Prop
  | refused {e : Error} (h : ready = .error e) : Course config secret made lastAttemptOk ready kind [] (.error e)
  /-- How many attempts there are does not become known. -/
  | uncounted {answer : Except Error Apdu.Response} (e : Error) (hready : ready = .ok ())
      (h : counter? answer = none) :
      Course config secret made lastAttemptOk ready kind [.retries answer] (.error e)
  /-- There is no attempt to use. -/
  | denied {answer : Except Error Apdu.Response} {n : UInt64} {e : Error} (hready : ready = .ok ())
      (h : counter? answer = some n) (hdenial : denial? n lastAttemptOk = some e) :
      Course config secret made lastAttemptOk ready kind [.retries answer] (.error e)
  /-- There is no agreement. -/
  | unagreed {answer keyAnswer : Except Error Apdu.Response} {n : UInt64} (e : Error) (hready : ready = .ok ())
      (h : counter? answer = some n) (hmay : MayTry n lastAttemptOk)
      (hkey : agreement? config secret made keyAnswer = none) :
      Course config secret made lastAttemptOk ready kind [.retries answer, .key keyAnswer] (.error e)
  | submitted {answer keyAnswer : Except Error Apdu.Response} {n : UInt64} {a : Agreement} {x : Asked}
      (result : Except Error α) (hready : ready = .ok ()) (h : counter? answer = some n)
      (hmay : MayTry n lastAttemptOk) (hkey : agreement? config secret made keyAnswer = some a)
      (hkind : x.request.subcommand = kind) (hhost : x.request.keyAgreement = some a.hostKey) :
      Course config secret made lastAttemptOk ready kind [.retries answer, .key keyAnswer, x] result

/-- A submission after the check of the attempts and the agreement. -/
theorem says_course {ready : Except Error Unit} {kind : PinSubcommand} (hready : ready = .ok ())
    {submission : UInt8 → Agreement → Action (Session σ) Error α}
    (hsubmission : ∀ before a u, (∃ shared, a.sessionKey = Crypto.PinProtocol.sessionKey shared) →
      Says card config (submission before a) u fun xs _ => ∃ x : Asked, xs = [x.exchanged] ∧
        x.request.subcommand = kind ∧ x.request.keyAgreement = some a.hostKey) (s : Session σ) :
    Says card config (do
      let before ← checkRetries card config lastAttemptOk
      let a ← agree card config secret
      submission before a) s fun xs result => ∃ asked : List Asked, xs = asked.map Asked.exchanged ∧
        Course config secret s.keysMade lastAttemptOk ready kind asked result := by
  refine (says_checkRetries s).bind ?_ ?_
  · rintro xs e ⟨answer, rfl, h⟩
    refine ⟨[.retries answer], rfl, ?_⟩
    cases h with
    | uncounted _ h => exact .uncounted e hready h
    | denied h hdenial => exact .denied hready h hdenial
  rintro t xs before hchecked ⟨answer, rfl, hresult⟩
  obtain ⟨n, h, hmay⟩ := hresult.exists_counter
  rw [← keysMade_checkRetries hchecked]
  refine (says_agreement t).bind ?_ ?_
  · rintro xs e ⟨keyAnswer, rfl, hkey⟩
    exact ⟨[.retries answer, .key keyAnswer], rfl, .unagreed e hready h hmay hkey.symm⟩
  rintro u xs a - ⟨keyAnswer, rfl, hkey⟩
  refine (hsubmission before a u (exists_shared_of_agreement? hkey.symm)).mono ?_
  rintro xs result ⟨x, rfl, hkind, hhost⟩
  exact ⟨[.retries answer, .key keyAnswer, x], rfl, .submitted result hready h hmay hkey.symm hkind hhost⟩

theorem says_getPinToken_course (pin : Pin) (s : Session σ) :
    Says card config (getPinToken card config secret pin lastAttemptOk) s fun xs result =>
      ∃ asked : List Asked, xs = asked.map Asked.exchanged ∧
        Course config secret s.keysMade lastAttemptOk (.ok ()) .getPinToken asked result := by
  refine says_course rfl ?_ s
  rintro before a u ⟨shared, hshared⟩
  obtain ⟨hashEnc, henc, -⟩ := Crypto.PinProtocol.exists_pinHashEnc shared pin.text
  rw [hshared, henc]
  refine .of_run (Action.bind_of_ok (Action.run_ofExcept_ok ..) _) rfl ?_
  refine (says_submit before _ u).bind ?_ ?_
  · rintro xs e ⟨answer, rfl, -⟩
    exact ⟨⟨_, answer⟩, rfl, rfl, rfl⟩
  · rintro v xs r - ⟨answer, rfl, -⟩
    cases r.pinToken <;> exact .quiet rfl ⟨⟨_, answer⟩, rfl, rfl, rfl⟩

theorem says_changePin_course (current newPin : Pin) (s : Session σ) :
    Says card config (changePin card config secret current newPin lastAttemptOk) s fun xs result =>
      ∃ asked : List Asked, xs = asked.map Asked.exchanged ∧
        Course config secret s.keysMade lastAttemptOk (checkPolicy newPin) .changePin asked result := by
  unfold changePin
  cases hpolicy : checkPolicy newPin with
  | error e => exact .quiet rfl ⟨[], rfl, .refused rfl⟩
  | ok _ =>
    refine .of_run (Action.bind_of_ok (Action.run_ofExcept_ok ..) _) rfl ?_
    refine says_course rfl ?_ s
    rintro before a u ⟨shared, hshared⟩
    obtain ⟨newEnc, hnew, -⟩ := Crypto.PinProtocol.exists_newPinEnc shared (length_le_of_checkPolicy hpolicy)
    obtain ⟨hashEnc, henc, -⟩ := Crypto.PinProtocol.exists_pinHashEnc shared current.text
    rw [hshared, hnew, henc]
    refine .of_run (Action.bind_of_ok (Action.run_ofExcept_ok ..) _) rfl ?_
    refine .of_run (Action.bind_of_ok (Action.run_ofExcept_ok ..) _) rfl ?_
    refine .of_run (Action.bind_of_ok (Action.run_modify ..) _) rfl ?_
    refine (says_submit before _ _).bind ?_ ?_
    · rintro xs e ⟨answer, rfl, -⟩
      exact ⟨⟨_, answer⟩, rfl, rfl, rfl⟩
    · rintro v xs r - ⟨answer, rfl, -⟩
      exact .quiet rfl ⟨⟨_, answer⟩, rfl, rfl, rfl⟩

/-! ## The gate -/

/-- How an operation that submits the current PIN, with a request of some kind, is gated by the number of attempts. -/
structure Gated (config : Config) (secret : Option Bytes) (made : Nat) (lastAttemptOk : Bool)
    (ready : Except Error Unit) (kind : PinSubcommand) (asked : List Asked) (result : Except Error α) : Prop where
  /-- The PIN is submitted at most once. -/
  once : (asked.filter (·.Submits)).length ≤ 1
  /-- In front of it the number of attempts has allowed it, and an agreement has been completed. -/
  guarded : ∀ before x after, asked = before ++ x :: after → x.Submits →
    ∃ answer keyAnswer n a, before = [.retries answer, .key keyAnswer] ∧ counter? answer = some n ∧
      MayTry n lastAttemptOk ∧ agreement? config secret made keyAnswer = some a ∧
      x.request.keyAgreement = some a.hostKey
  /-- Nothing is asked where the host is not ready. -/
  refused : ∀ e, ready = .error e → asked = [] ∧ result = .error e
  /-- Otherwise the attempts are asked for. -/
  starts : ready = .ok () → ∃ answer rest, asked = .retries answer :: rest
  /-- Nothing follows where there is none. -/
  blocked : ∀ answer rest, asked = .retries answer :: rest → counter? answer = some 0 →
    rest = [] ∧ result = .error .blocked
  /-- Nothing follows where it would be the last one, without the caller's consent. -/
  lastAttempt : ∀ answer rest, asked = .retries answer :: rest → counter? answer = some 1 → lastAttemptOk = false →
    rest = [] ∧ result = .error .lastAttempt
  /-- Wherever the number allows it and there is an agreement, the PIN is submitted. -/
  submits : ∀ answer rest n, asked = .retries answer :: rest → counter? answer = some n →
    MayTry n lastAttemptOk → ∃ keyAnswer last, rest = .key keyAnswer :: last ∧
      ((agreement? config secret made keyAnswer).isSome → ∃ x, last = [x] ∧ x.request.subcommand = kind)

variable {made : Nat} {ready : Except Error Unit} {kind : PinSubcommand} {asked : List Asked} {result : Except Error α}

theorem Course.once (h : Course config secret made lastAttemptOk ready kind asked result) :
    (asked.filter (·.Submits)).length ≤ 1 := by
  cases h with
  | refused | uncounted | denied | unagreed => simp
  | @submitted _ _ _ _ x => by_cases hx : x.Submits <;> simp [hx]

/-- Only what comes third can be a submission. -/
theorem Course.guarded (h : Course config secret made lastAttemptOk ready kind asked result) {before after : List Asked}
    {x : Asked} (hasked : asked = before ++ x :: after) (hx : x.Submits) :
    ∃ answer keyAnswer n a, before = [.retries answer, .key keyAnswer] ∧ counter? answer = some n ∧
      MayTry n lastAttemptOk ∧ agreement? config secret made keyAnswer = some a ∧
      x.request.keyAgreement = some a.hostKey := by
  have hno : ∀ ys : List Asked, (∀ y ∈ ys, ¬ y.Submits) → ys ≠ before ++ x :: after := by
    rintro ys hys rfl
    exact hys x (List.mem_append_right _ (List.mem_cons_self ..)) hx
  cases h with
  | refused => exact absurd hasked (hno _ (List.forall_mem_nil _))
  | uncounted | denied =>
    exact absurd hasked (hno _ (List.forall_mem_singleton.mpr (Asked.not_submits_retries _)))
  | unagreed =>
    refine absurd hasked (hno _ (List.forall_mem_cons.mpr ⟨Asked.not_submits_retries _, ?_⟩))
    exact List.forall_mem_singleton.mpr (Asked.not_submits_key _)
  | @submitted answer keyAnswer n a _ _ _ h hmay hkey _ hhost =>
    rcases before with _ | ⟨first, _ | ⟨second, _ | ⟨third, rest⟩⟩⟩
    · cases hasked
      exact absurd hx (Asked.not_submits_retries answer)
    · cases hasked
      exact absurd hx (Asked.not_submits_key keyAnswer)
    · cases hasked
      exact ⟨answer, keyAnswer, n, a, rfl, h, hmay, hkey, hhost⟩
    · simp at hasked

/-- Where the host is ready, it asks for the attempts first. -/
theorem Course.starts (h : Course config secret made lastAttemptOk ready kind asked result) :
    (∃ e, ready = .error e ∧ asked = [] ∧ result = .error e) ∨
      ready = .ok () ∧ ∃ answer rest, asked = .retries answer :: rest := by
  cases h with
  | refused h => exact .inl ⟨_, h, rfl, rfl⟩
  | uncounted _ hready | denied hready | unagreed _ hready | submitted _ hready =>
    exact .inr ⟨hready, _, _, rfl⟩

section Answered

variable {answer : Except Error Apdu.Response} {rest : List Asked} {n : UInt64}

/-- Nothing follows where no attempt is to be used. -/
theorem Course.eq_of_denial (h : Course config secret made lastAttemptOk ready kind asked result)
    (hasked : asked = .retries answer :: rest) (hn : counter? answer = some n) {e : Error}
    (he : denial? n lastAttemptOk = some e) : rest = [] ∧ result = .error e := by
  have hmust : ∀ {m}, counter? answer = some m → ¬ MayTry m lastAttemptOk := by
    intro m hm hmay
    cases hn.symm.trans hm
    cases he.symm.trans (denial?_eq_none_iff.mpr hmay)
  cases h with
  | refused => cases hasked
  | uncounted _ _ h =>
    cases hasked
    cases h.symm.trans hn
  | denied hready h hdenial =>
    cases hasked
    cases h.symm.trans hn
    cases hdenial.symm.trans he
    exact ⟨rfl, rfl⟩
  | unagreed _ _ h hmay =>
    cases hasked
    exact absurd hmay (hmust h)
  | submitted _ _ h hmay =>
    cases hasked
    exact absurd hmay (hmust h)

/-- Where an attempt may be used, an agreement is asked for, and where there is one the PIN is submitted. -/
theorem Course.submits (h : Course config secret made lastAttemptOk ready kind asked result)
    (hasked : asked = .retries answer :: rest) (hn : counter? answer = some n) (hmay : MayTry n lastAttemptOk) :
    ∃ keyAnswer last, rest = .key keyAnswer :: last ∧
      ((agreement? config secret made keyAnswer).isSome → ∃ x, last = [x] ∧ x.request.subcommand = kind) := by
  cases h with
  | refused => cases hasked
  | uncounted _ _ h =>
    cases hasked
    cases h.symm.trans hn
  | denied hready h hdenial =>
    cases hasked
    cases h.symm.trans hn
    cases hdenial.symm.trans (denial?_eq_none_iff.mpr hmay)
  | unagreed _ _ _ _ hkey =>
    cases hasked
    refine ⟨_, _, rfl, fun hsome => ?_⟩
    rw [hkey] at hsome
    cases hsome
  | submitted _ _ _ _ _ hkind =>
    cases hasked
    exact ⟨_, _, rfl, fun _ => ⟨_, rfl, hkind⟩⟩

end Answered

theorem Course.gated (h : Course config secret made lastAttemptOk ready kind asked result) :
    Gated config secret made lastAttemptOk ready kind asked result where
  once := h.once
  guarded _ _ _ hasked hx := h.guarded hasked hx
  refused e he := by
    obtain ⟨e', he', hcourse⟩ | ⟨hready, -⟩ := h.starts
    · cases he'.symm.trans he
      exact hcourse
    · cases hready.symm.trans he
  starts hready := by
    obtain ⟨e, he, -⟩ | ⟨-, hstart⟩ := h.starts
    · cases he.symm.trans hready
    · exact hstart
  blocked _ _ hasked hn := h.eq_of_denial hasked hn (if_pos rfl)
  lastAttempt _ _ hasked hn hspared := h.eq_of_denial hasked hn ((if_neg (by decide)).trans (if_pos ⟨rfl, hspared⟩))
  submits _ _ _ hasked hn hmay := h.submits hasked hn hmay

end Course

/-- From one session to the other the requests are exchanged with the card, and whatever APDU is sent serves one of
them. -/
def Asks {σ : Type} (card : Card σ) (config : Config) (s : Session (Recorded σ)) (asked : List Asked)
    (t : Session (Recorded σ)) : Prop :=
  Dialogue (recording card) config.chunkSize s.card (asked.map Asked.exchanged) t.card ∧
    ∃ apdus, t.card.sent = s.card.sent ++ apdus ∧ ∀ a ∈ apdus, ∃ x ∈ asked, Serves x.exchanged.command a

theorem exists_asks {σ α : Type} {card : Card σ} {config : Config} {a : Action (Session (Recorded σ)) Error α}
    {s : Session (Recorded σ)} {Q : List Asked → Except Error α → Prop}
    (h : Says (recording card) config a s fun xs result => ∃ asked : List Asked, xs = asked.map Asked.exchanged ∧
      Q asked result) : ∃ asked, Asks card config s asked (a s).2 ∧ Q asked (a s).1 := by
  obtain ⟨_, hx, asked, rfl, hQ⟩ := h
  obtain ⟨apdus, hsent, hserves⟩ := hx.sent
  refine ⟨asked, ⟨hx, apdus, hsent, fun a ha => ?_⟩, hQ⟩
  obtain ⟨_, hmem, hs⟩ := hserves a ha
  obtain ⟨x, hasked, rfl⟩ := List.mem_map.mp hmem
  exact ⟨x, hasked, hs⟩

/-- **Attempts are gated.** Whatever a card does, to get a token or to change the PIN takes requests that are gated by
the number of attempts that the authenticator says are left: the PIN is submitted at most once, after the number
allowed it and an agreement was completed. With no attempt the authenticator is blocked, and the last one takes
consent; nothing else is sent then. For a new PIN that the host refuses nothing is sent at all. -/
theorem submissions_gated {σ : Type} (card : Card σ) (config : Config) (secret : Option Bytes) (lastAttemptOk : Bool)
    (s : Session (Recorded σ)) :
    (∀ pin, ∃ asked,
      Asks card config s asked (getPinToken (recording card) config secret pin lastAttemptOk s).2 ∧
      Gated config secret s.keysMade lastAttemptOk (.ok ()) .getPinToken asked
        (getPinToken (recording card) config secret pin lastAttemptOk s).1) ∧
    ∀ current newPin, ∃ asked,
      Asks card config s asked (changePin (recording card) config secret current newPin lastAttemptOk s).2 ∧
      Gated config secret s.keysMade lastAttemptOk (checkPolicy newPin) .changePin asked
        (changePin (recording card) config secret current newPin lastAttemptOk s).1 := by
  constructor
  · intro pin
    obtain ⟨asked, hasks, hcourse⟩ := exists_asks (says_getPinToken_course pin s)
    exact ⟨asked, hasks, hcourse.gated⟩
  · intro current newPin
    obtain ⟨asked, hasks, hcourse⟩ := exists_asks (says_changePin_course current newPin s)
    exact ⟨asked, hasks, hcourse.gated⟩

end Pin

end SecurityKey.Fido
