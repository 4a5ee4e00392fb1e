import SecurityKey.Proofs.Fido.Conversation

/-!
# Registrations and the excluded credentials

A U2F authenticator knows nothing of excluded credentials, so the host asks for each key handle whether it is known,
and registers a new key only if none is.

- `questions` are the questions to be asked, and `objection?` is what an answer says against a registration;
- `Probed` lists what may be asked of them, and `Course` what may be said to create a credential
  (`says_makeCredential`);
- `Heeds` says what every such course keeps to (`Course.heeds`): no registration without all the questions, each of
  them answered by a wrong handle. `registration_heeds_exclusions` has it of the operation.
-/

namespace SecurityKey.Fido.U2f

open Credential (Descriptor)
open Exchange (Dialogue Exchanged Recorded Serves recording)
open Session (Says)

/-! ## Questions and answers -/

/-- The key handles of a list that can be sent. -/
def sendable (listed : List Descriptor) : List Bytes := (listed.map (·.id)).filter (·.length ≤ 255)

/-- The question whether a key handle is known: an authentication that only checks. -/
def question (c : Creation) (keyHandle : Bytes) : Apdu.Command where
  cla := 0x00
  ins := 0x02
  p1 := 0x07
  p2 := 0x00
  data := c.clientDataHash.val ++ Crypto.Sha256.digest (Bytes.ofString c.rp.id) ++
    UInt8.ofNat keyHandle.length :: keyHandle
  ne := 65536

/-- The questions to be asked in front of a registration. -/
def questions (c : Creation) : List Apdu.Command := (sendable c.exclude).map (question c)

/-- The registration itself. -/
def registration (c : Creation) : Apdu.Command := registerApdu c.clientDataHash (appId c.rp.id)

/-- What the answer to a question says against the registration. Only a wrong handle says nothing against it. -/
def objection? (answer : Except Error Apdu.Response) : Option Error :=
  match answer with
  | .error e => some e
  | .ok r =>
    if r.sw = .conditionsNotSatisfied then some (.ctap .credentialExcluded)
    else if r.sw = .wrongData then none
    else some (.ofFidoStatus r.sw)

theorem objection?_eq_none_iff {answer : Except Error Apdu.Response} :
    objection? answer = none ↔ ∃ r, answer = .ok r ∧ r.sw = .wrongData := by
  cases answer with
  | error e => simp [objection?]
  | ok r =>
    have hne : Apdu.StatusWord.wrongData ≠ .conditionsNotSatisfied := by decide
    simp only [objection?, Except.ok.injEq, exists_eq_left']
    split
    · rename_i h
      simp [h, hne.symm]
    · split <;> simp [*]

theorem ins_of_mem_questions {c : Creation} {q : Apdu.Command} (h : q ∈ questions c) : q.ins = 0x02 := by
  obtain ⟨_, -, rfl⟩ := List.mem_map.mp h
  rfl

theorem registration_not_mem_questions (c : Creation) : registration c ∉ questions c := by
  intro h
  cases ins_of_mem_questions h

/-! ## What may be asked -/

/-- What may be exchanged to ask questions in order, with what result: up to the first objection. -/
inductive Probed : List Apdu.Command → List Exchanged → Except Error Unit → Prop
  | done : Probed [] [] (.ok ())
  | unknown {q : Apdu.Command} {qs : List Apdu.Command} {answer : Except Error Apdu.Response} {xs : List Exchanged}
      {result : Except Error Unit} (h : objection? answer = none) (rest : Probed qs xs result) :
      Probed (q :: qs) (⟨q, answer⟩ :: xs) result
  | stopped {q : Apdu.Command} {qs : List Apdu.Command} {answer : Except Error Apdu.Response} {e : Error}
      (h : objection? answer = some e) : Probed (q :: qs) [⟨q, answer⟩] (.error e)

section Probed

variable {qs : List Apdu.Command} {xs : List Exchanged} {result : Except Error Unit}

/-- The questions are asked in their order. -/
theorem Probed.isPrefix (h : Probed qs xs result) : xs.map (·.command) <+: qs := by
  induction h with
  | done => exact List.prefix_rfl
  | unknown _ _ ih => exact List.cons_prefix_cons.mpr ⟨rfl, ih⟩
  | stopped _ => exact List.cons_prefix_cons.mpr ⟨rfl, List.nil_prefix⟩

/-- To come to a good end, all of them are asked, and nothing is said against the registration. -/
theorem Probed.complete (h : Probed qs xs (.ok ())) :
    xs.map (·.command) = qs ∧ ∀ x ∈ xs, objection? x.answer = none := by
  generalize hr : (Except.ok () : Except Error Unit) = result at h
  induction h with
  | done => exact ⟨rfl, List.forall_mem_nil _⟩
  | unknown h _ ih =>
    obtain ⟨hqs, hall⟩ := ih hr
    exact ⟨congrArg _ hqs, List.forall_mem_cons.mpr ⟨h, hall⟩⟩
  | stopped _ => cases hr

/-- To come to a bad end, something is said against it. -/
theorem Probed.exists_objection {e : Error} (h : Probed qs xs (.error e)) :
    ∃ x ∈ xs, objection? x.answer = some e := by
  generalize hr : (Except.error e : Except Error Unit) = result at h
  induction h with
  | done => cases hr
  | unknown _ _ ih =>
    obtain ⟨x, hx, he⟩ := ih hr
    exact ⟨x, List.mem_cons_of_mem _ hx, he⟩
  | stopped h =>
    cases hr
    exact ⟨_, List.mem_singleton_self _, h⟩

/-- An objection ends the questions. -/
theorem Probed.stops (h : Probed qs xs result) {before after : List Exchanged} {x : Exchanged} {e : Error}
    (hxs : xs = before ++ x :: after) (he : objection? x.answer = some e) : after = [] ∧ result = .error e := by
  induction h generalizing before with
  | done => simp at hxs
  | unknown h _ ih =>
    cases before with
    | nil =>
      cases hxs
      cases h.symm.trans he
    | cons _ before =>
      cases hxs
      exact ih rfl
  | stopped h =>
    cases before with
    | nil =>
      cases hxs
      cases h.symm.trans he
      exact ⟨rfl, rfl⟩
    | cons _ before => simp at hxs

end Probed

section Says

variable {σ : Type} {card : Card σ} {config : Config} (c : Creation)

/-- A key handle is asked about if it can be sent. -/
theorem authenticateApdu?_checking (keyHandle : Bytes) :
    authenticateApdu? true c.clientDataHash (appId c.rp.id) keyHandle =
      if keyHandle.length ≤ 255 then some (question c keyHandle) else none :=
  rfl

theorem says_checkExcluded (listed : List Descriptor) (s : Session σ) :
    Says card config (checkExcluded card config c.clientDataHash (appId c.rp.id) listed) s
      (Probed ((sendable listed).map (question c))) := by
  induction listed generalizing s with
  | nil => exact .quiet rfl .done
  | cons d rest ih =>
    by_cases hd : d.id.length ≤ 255
    · have hsendable : sendable (d :: rest) = d.id :: sendable rest := List.filter_cons_of_pos (decide_eq_true hd)
      rw [hsendable, List.map_cons, checkExcluded, authenticateApdu?_checking, if_pos hd]
      refine (Session.says_transmit card config (question c d.id) s).bind ?_ ?_
      · rintro xs e rfl
        exact .stopped rfl
      · rintro t xs r - rfl
        have hanswer : objection? (.ok r) = _ := rfl
        split
        · rename_i hsw
          exact .quiet rfl (.stopped (hanswer.trans (if_pos hsw)))
        · rename_i hsw
          split
          · rename_i hunknown
            refine (ih t).mono fun xs result h => .unknown ?_ h
            exact hanswer.trans ((if_neg hsw).trans (if_pos hunknown))
          · rename_i hother
            exact .quiet rfl (.stopped (hanswer.trans ((if_neg hsw).trans (if_neg hother))))
    · have hsendable : sendable (d :: rest) = sendable rest :=
        List.filter_cons_of_neg (by rwa [decide_eq_true_eq])
      rw [hsendable, checkExcluded, authenticateApdu?_checking, if_neg hd]
      exact ih s

/-- What may be said to create a credential. -/
inductive Course (c : Creation) : List Exchanged → Except Error PublicKeyCredential → Prop
  | unverified (h : c.userVerification = .required) :
      Course c [] (.error (.unsupported "CTAP1 authenticators cannot verify the user"))
  | stopped {xs : List Exchanged} {e : Error} (hv : c.userVerification ≠ .required)
      (h : Probed (questions c) xs (.error e)) : Course c xs (.error e)
  | registered {xs : List Exchanged} (answer : Except Error Apdu.Response)
      (result : Except Error PublicKeyCredential) (hv : c.userVerification ≠ .required)
      (h : Probed (questions c) xs (.ok ())) : Course c (xs ++ [⟨registration c, answer⟩]) result

theorem says_makeCredential (s : Session σ) : Says card config (makeCredential card config c) s (Course c) := by
  by_cases hv : c.userVerification = .required
  · refine .quiet ?_ ?_
    · rw [makeCredential, run_rejected hv]
    · rw [makeCredential, run_rejected hv]
      exact .unverified hv
  have haccepted : rejectUserVerification c.userVerification = .ok () := if_neg hv
  unfold makeCredential
  rw [haccepted]
  refine .of_run (Action.bind_of_ok (Action.run_ofExcept_ok ..) _) rfl ?_
  refine (says_checkExcluded c c.exclude s).bind (fun _ _ h => Course.stopped hv h) ?_
  rintro t xs ⟨⟩ - h
  refine (Session.says_communicate card config (registration c) t).bind ?_ ?_
  · rintro ys e ⟨answer, rfl⟩
    exact .registered answer _ hv h
  · rintro u ys r - ⟨answer, rfl⟩
    refine .ofExcept_bind (fun _ => ?_) fun parts _ => .quiet rfl ?_
    all_goals
      rw [List.append_nil]
      exact .registered answer _ hv h

end Says

/-! ## What every course keeps to -/

/-- How a creation heeds the excluded credentials. -/
structure Heeds (c : Creation) (xs : List Exchanged) (result : Except Error PublicKeyCredential) : Prop where
  /-- The questions are asked in the order of the list, and behind them there is nothing but the registration. -/
  ordered : xs.map (·.command) <+: questions c ++ [registration c]
  /-- The registration comes last, behind all the questions, and each of them was answered by a wrong handle. -/
  guarded : ∀ x ∈ xs, x.command = registration c → ∃ asked, xs = asked ++ [x] ∧
    asked.map (·.command) = questions c ∧ ∀ y ∈ asked, ∃ r, y.answer = .ok r ∧ r.sw = .wrongData
  /-- A known handle ends the creation. -/
  excluded : ∀ before x after r, xs = before ++ x :: after → x.command ∈ questions c → x.answer = .ok r →
    r.sw = .conditionsNotSatisfied → after = [] ∧ result = .error (.ctap .credentialExcluded)
  /-- So does any other answer, be it success. -/
  refused : ∀ before x after r, xs = before ++ x :: after → x.command ∈ questions c → x.answer = .ok r →
    r.sw ≠ .conditionsNotSatisfied → r.sw ≠ .wrongData → after = [] ∧ result = .error (.ofFidoStatus r.sw)
  /-- So does a question without an answer. -/
  failed : ∀ before x after e, xs = before ++ x :: after → x.command ∈ questions c → x.answer = .error e →
    after = [] ∧ result = .error e
  /-- Nothing is said where the user has to be verified. -/
  unverified : c.userVerification = .required →
    xs = [] ∧ result = .error (.unsupported "CTAP1 authenticators cannot verify the user")
  /-- Otherwise, where all that is asked is answered by a wrong handle, the key is registered. -/
  registers : c.userVerification ≠ .required →
    (∀ x ∈ xs, x.command ∈ questions c → ∃ r, x.answer = .ok r ∧ r.sw = .wrongData) →
    ∃ x ∈ xs, x.command = registration c

section Course

variable {c : Creation} {xs : List Exchanged} {result : Except Error PublicKeyCredential}

theorem Course.ordered (h : Course c xs result) : xs.map (·.command) <+: questions c ++ [registration c] := by
  cases h with
  | unverified => exact List.nil_prefix
  | stopped _ h => exact h.isPrefix.trans (List.prefix_append ..)
  | registered answer _ _ h =>
    rw [List.map_append, h.complete.1]
    exact List.prefix_rfl

theorem Course.guarded (h : Course c xs result) {x : Exchanged} (hx : x ∈ xs) (hreg : x.command = registration c) :
    ∃ asked, xs = asked ++ [x] ∧ asked.map (·.command) = questions c ∧
      ∀ y ∈ asked, ∃ r, y.answer = .ok r ∧ r.sw = .wrongData := by
  have hnone := registration_not_mem_questions c
  rw [← hreg] at hnone
  cases h with
  | unverified => cases hx
  | stopped _ h => exact absurd (h.isPrefix.subset (List.mem_map_of_mem hx)) hnone
  | @registered ys answer _ _ h =>
    obtain ⟨hasked, hall⟩ := h.complete
    rcases List.mem_append.mp hx with hy | hy
    · rw [← hasked] at hnone
      exact absurd (List.mem_map_of_mem hy) hnone
    · obtain rfl := List.mem_singleton.mp hy
      exact ⟨ys, rfl, hasked, fun y hy => objection?_eq_none_iff.mp (hall y hy)⟩

/-- An objection to a question ends the creation. -/
theorem Course.stops (h : Course c xs result) {before after : List Exchanged} {x : Exchanged} {e : Error}
    (hxs : xs = before ++ x :: after) (hx : x.command ∈ questions c) (he : objection? x.answer = some e) :
    after = [] ∧ result = .error e := by
  cases h with
  | unverified => simp at hxs
  | stopped _ h =>
    obtain ⟨hafter, herror⟩ := h.stops hxs he
    cases herror
    exact ⟨hafter, rfl⟩
  | @registered ys answer _ _ h =>
    have hmem : x ∈ ys ++ [⟨registration c, answer⟩] := by
      rw [hxs]
      exact List.mem_append_right _ (List.mem_cons_self ..)
    rcases List.mem_append.mp hmem with hy | hy
    · cases (h.complete.2 x hy).symm.trans he
    · obtain rfl := List.mem_singleton.mp hy
      exact absurd hx (registration_not_mem_questions c)

theorem Course.registers (h : Course c xs result) (hv : c.userVerification ≠ .required)
    (hall : ∀ x ∈ xs, x.command ∈ questions c → ∃ r, x.answer = .ok r ∧ r.sw = .wrongData) :
    ∃ x ∈ xs, x.command = registration c := by
  cases h with
  | unverified h => exact absurd h hv
  | stopped _ h =>
    obtain ⟨x, hx, hobjection⟩ := h.exists_objection
    have hq := h.isPrefix.subset (List.mem_map_of_mem hx)
    rw [objection?_eq_none_iff.mpr (hall x hx hq)] at hobjection
    cases hobjection
  | registered answer => exact ⟨_, List.mem_append_right _ (List.mem_singleton_self _), rfl⟩

theorem Course.heeds (h : Course c xs result) : Heeds c xs result where
  ordered := h.ordered
  guarded _ hx hreg := h.guarded hx hreg
  excluded _ x _ r hxs hx hr hsw := by
    refine h.stops hxs hx ?_
    rw [hr, objection?, if_pos hsw]
  refused _ x _ r hxs hx hr hsw hother := by
    refine h.stops hxs hx ?_
    rw [hr, objection?, if_neg hsw, if_neg hother]
  failed _ x _ e hxs hx he := by
    refine h.stops hxs hx ?_
    rw [he, objection?]
  unverified hv := by
    cases h with
    | unverified => exact ⟨rfl, rfl⟩
    | stopped hne => exact absurd hv hne
    | registered _ _ hne => exact absurd hv hne
  registers hv hall := h.registers hv hall

end Course

/-- **A registration heeds the excluded credentials.** Whatever a card does, to create a credential over U2F the host
says nothing but the questions for the excluded key handles that can be sent, in the order of the list, and behind
them the registration. It registers only where each question was answered by a wrong handle. Any other answer ends the
creation in an error, which is that the credential is excluded where the handle is known, and nothing else is sent.
Whatever APDU is sent serves one of the questions or the registration. -/
theorem registration_heeds_exclusions {σ : Type} (card : Card σ) (config : Config) (c : Creation)
    (s : Session (Recorded σ)) :
    ∃ xs, Dialogue (recording card) config.chunkSize s.card xs (makeCredential (recording card) config c s).2.card ∧
      Heeds c xs (makeCredential (recording card) config c s).1 ∧
      ∃ apdus, (makeCredential (recording card) config c s).2.card.sent = s.card.sent ++ apdus ∧
        ∀ a ∈ apdus, ∃ x ∈ xs, Serves x.command a := by
  have hsays : Says (recording card) config (makeCredential (recording card) config c) s (Course c) :=
    says_makeCredential c s
  obtain ⟨xs, hx, hcourse⟩ := hsays
  exact ⟨xs, hx, hcourse.heeds, hx.sent⟩

end SecurityKey.Fido.U2f
