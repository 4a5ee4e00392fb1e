import SecurityKey.Proofs.Exchange.Dialogue
import SecurityKey.Proofs.Fido.Movements

/-!
# What a session says to its card

- `Session.conversing card size P`: the session goes on by exchanges of commands that are `P`, and keeps its token;
- `Session.Says card config a s Q`: from the state `s`, the action says exchanges that are, with its result, as `Q`
  tells;
- to connect takes selections, the question for the version and the question for information only
  (`Session.dialogue_connect`).
-/

namespace SecurityKey.Fido

open Credential (UserVerification)
open Exchange (Conducts Dialogue Exchanged)

namespace Session

variable {σ : Type}

/-- The session goes on by exchanges of commands of one kind. Its token stays. -/
def conversing (card : Card σ) (size : Nat) (P : Apdu.Command → Prop) : Movement (Session σ) where
  rel s t := t.pinToken = s.pinToken ∧ ∃ xs, Dialogue card size s.card xs t.card ∧ ∀ x ∈ xs, P x.command
  refl s := ⟨rfl, [], .nil _, fun _ h => nomatch h⟩
  trans := by
    rintro s t u ⟨ht, xs, hx, hP⟩ ⟨hu, ys, hy, hQ⟩
    refine ⟨hu.trans ht, xs ++ ys, hx.trans hy, ?_⟩
    intro x hm
    rcases List.mem_append.mp hm with hm | hm
    · exact hP x hm
    · exact hQ x hm

variable (card : Card σ) (config : Config) {P : Apdu.Command → Prop}

/-! ## Exchanges of a session -/

theorem dialogue_transmit (c : Apdu.Command) (s : Session σ) : Dialogue card config.chunkSize s.card
    [⟨c, (transmit card config c s).1⟩] (transmit card config c s).2.card :=
  .exchange rfl (.nil _)

/-- Whatever is exchanged is one exchange of the dialogue. -/
theorem permits_conversing : Permits card config (conversing card config.chunkSize P) P := by
  intro c h s
  refine ⟨rfl, _, dialogue_transmit card config c s, ?_⟩
  intro x hx
  rwa [List.mem_singleton.mp hx]

/-! ## What an action says -/

section Says

variable {ε α β : Type}

/-- An action goes on from a state by exchanges, and they and its result are as told. -/
def Says (a : Action (Session σ) ε α) (s : Session σ) (Q : List Exchanged → Except ε α → Prop) : Prop :=
  ∃ xs, Dialogue card config.chunkSize s.card xs (a s).2.card ∧ Q xs (a s).1

variable {card config} {a : Action (Session σ) ε α} {s : Session σ} {Q T : List Exchanged → Except ε α → Prop}

/-- To say something is to conduct a dialogue, whatever session is left. -/
theorem says_iff_conducts : Says card config a s Q ↔
    Conducts card config.chunkSize Session.card a s fun xs r _ => Q xs r := Iff.rfl

theorem Says.mono (h : Says card config a s Q) (hT : ∀ xs r, Q xs r → T xs r) : Says card config a s T :=
  says_iff_conducts.mpr ((says_iff_conducts.mp h).mono fun xs r _ => hT xs r)

/-- An action that leaves the card alone says nothing. -/
theorem Says.quiet (hcard : (a s).2.card = s.card) (h : T [] (a s).1) : Says card config a s T :=
  says_iff_conducts.mpr (.quiet hcard h)

/-- An action that runs like another one from a session with the same card says the same. -/
theorem Says.of_run {b : Action (Session σ) ε α} {t : Session σ} (h : a s = b t) (hcard : t.card = s.card)
    (hb : Says card config b t T) : Says card config a s T :=
  says_iff_conducts.mpr (.of_run h hcard (says_iff_conducts.mp hb))

/-- One action after another. -/
theorem Says.bind {f : α → Action (Session σ) ε β} {T : List Exchanged → Except ε β → Prop}
    (ha : Says card config a s Q) (herror : ∀ xs e, Q xs (.error e) → T xs (.error e))
    (hok : ∀ t xs x, a s = (.ok x, t) → Q xs (.ok x) → Says card config (f x) t fun ys r => T (xs ++ ys) r) :
    Says card config (a >>= f) s T :=
  says_iff_conducts.mpr ((says_iff_conducts.mp ha).bind (fun _ => herror) hok)

/-- An action that looks at the session first. -/
theorem Says.get_bind {f : Session σ → Action (Session σ) ε α} (h : Says card config (f s) s T) :
    Says card config (MonadState.get >>= f : Action (Session σ) ε α) s T :=
  h

/-- A check says nothing. -/
theorem Says.ofExcept_bind {ε' : Type} {g : ε' → ε} {r : Except ε' α} {f : α → Action (Session σ) ε β}
    {T : List Exchanged → Except ε β → Prop} (herror : ∀ e, T [] (.error e))
    (hok : ∀ x, r = .ok x → Says card config (f x) s T) : Says card config (Action.ofExcept g r >>= f) s T :=
  says_iff_conducts.mpr (.ofExcept_bind herror hok)

theorem Says.map {f : α → β} {T : List Exchanged → Prop} (h : Says card config a s fun xs _ => T xs) :
    Says card config (f <$> a) s fun xs _ => T xs := by
  rw [← bind_pure_comp]
  refine h.bind (fun _ _ hT => hT) fun t xs x _ hT => .quiet rfl ?_
  rwa [List.append_nil]

/-- Whatever moves the session by exchanges of one kind says nothing else. -/
theorem says_of_moves {P : Apdu.Command → Prop} (h : Action.Moves (conversing card config.chunkSize P) a) :
    Says card config a s fun xs _ => ∀ x ∈ xs, P x.command :=
  (h s).2

end Says

/-- What a session reads from the answer to a CTAP2 message. -/
def ctap2Answer (answer : Except Error Apdu.Response) : Except Error (Option Cbor.Value) := do
  let r ← answer
  if r.isSuccess then (Ctap.parseResponse r.data).mapError Error.ofCtap else .error (.ofFidoStatus r.sw)

variable {card config}

/-- A session gets for a command what its card gets, and only the card changes. -/
theorem transmit_of_exchange {c : Apdu.Command} {s : Session σ} {answer : Except Error Apdu.Response} {c' : σ}
    (h : Exchange.transmit card c config.chunkSize s.card = (answer, c')) :
    transmit card config c s = (answer, { s with card := c' }) := by
  have hrun : transmit card config c s = ((Exchange.transmit card c config.chunkSize s.card).1,
      { s with card := (Exchange.transmit card c config.chunkSize s.card).2 }) := rfl
  rw [hrun, h]

theorem communicate_of_transmit {c : Apdu.Command} {s t : Session σ} {data : Bytes}
    (h : transmit card config c s = (.ok (.ok data), t)) : communicate card config c s = (.ok (.ok data), t) := by
  unfold communicate
  rw [Action.bind_of_ok h]
  rfl

/-- The result of a CTAP2 message is read from the whole answer. -/
theorem ctap2Request_of_transmit {request : Bytes} {s t : Session σ} {answer : Except Error Apdu.Response}
    (h : transmit card config (ctap2Apdu request) s = (answer, t)) :
    ctap2Request card config request s = (ctap2Answer answer, t) := by
  rw [ctap2Request, Action.run_bind, communicate, Action.run_bind, h]
  rcases answer with e | r
  · rfl
  · cases hr : r.isSuccess <;> simp [hr, ctap2Answer, bind, Except.bind, Action.ofExcept]

theorem ctap2RequestBody_of_transmit {request : Bytes} {s t : Session σ} {answer : Except Error Apdu.Response}
    {v : Cbor.Value} (h : transmit card config (ctap2Apdu request) s = (answer, t))
    (hv : ctap2Answer answer = .ok (some v)) : ctap2RequestBody card config request s = (.ok v, t) := by
  have hrun := ctap2Request_of_transmit h
  rw [hv] at hrun
  unfold ctap2RequestBody
  rw [Action.bind_of_ok hrun]
  rfl

variable (card config)

theorem says_transmit (c : Apdu.Command) (s : Session σ) :
    Says card config (transmit card config c) s fun xs r => xs = [⟨c, r⟩] :=
  ⟨_, dialogue_transmit card config c s, rfl⟩

theorem says_communicate (c : Apdu.Command) (s : Session σ) :
    Says card config (communicate card config c) s fun xs _ => ∃ answer, xs = [⟨c, answer⟩] := by
  refine (says_transmit card config c s).bind (fun xs e h => ⟨_, h⟩) ?_
  rintro t xs r - rfl
  split <;> exact .quiet rfl ⟨_, rfl⟩

theorem says_ctap2Request (request : Bytes) (s : Session σ) :
    Says card config (ctap2Request card config request) s fun xs r =>
      ∃ answer, xs = [⟨ctap2Apdu request, answer⟩] ∧ r = ctap2Answer answer := by
  unfold Says
  rw [ctap2Request_of_transmit rfl]
  exact ⟨_, dialogue_transmit card config _ s, _, rfl, rfl⟩

theorem says_ctap2RequestBody (request : Bytes) (s : Session σ) :
    Says card config (ctap2RequestBody card config request) s fun xs _ =>
      ∃ answer, xs = [⟨ctap2Apdu request, answer⟩] := by
  refine (says_ctap2Request card config request s).bind ?_ ?_
  · rintro xs e ⟨answer, hxs, -⟩
    exact ⟨answer, hxs⟩
  · rintro t xs body - ⟨answer, rfl, -⟩
    cases body <;> exact .quiet rfl ⟨answer, rfl⟩

/-! ## Connecting -/

theorem moves_greet_conversing :
    Action.Moves (conversing card config.chunkSize Greets) (greet card config) :=
  moves_greet (permits_conversing card config) fun _ _ _ _ => ⟨rfl, [], .nil _, fun _ h => nomatch h⟩

/-- To connect, a session says nothing but what belongs to it. Where it is connected then, it has the token it had. -/
theorem dialogue_connect (s : Session σ) :
    ∃ xs, Dialogue card config.chunkSize s.card xs (connect card config s).2.card ∧ (∀ x ∈ xs, Greets x.command) ∧
      ((connect card config s).1 = .ok () → (connect card config s).2.pinToken = s.pinToken) := by
  have hopens : ∀ {t xs u}, Opens card s t → Dialogue card config.chunkSize t.card xs u →
      Dialogue card config.chunkSize s.card xs u ∧ t.pinToken = s.pinToken := by
    intro t xs u hopen hx
    cases hopen with
    | ready => exact ⟨hx, rfl⟩
    | connected _ h => exact ⟨.connect h hx, rfl⟩
  have hnone : ∀ x ∈ ([] : List Exchanged), Greets x.command := fun _ h => nomatch h
  rcases hr : connect card config s with ⟨r, t⟩
  cases attempt_of_connect hr with
  | needless => exact ⟨[], .nil _, hnone, fun _ => rfl⟩
  | refused _ _ h => exact ⟨[], .connect h (.nil _), hnone, fun hok => nomatch hok⟩
  | @failed t u e _ hopen h =>
    obtain ⟨-, xs, hx, hP⟩ := (moves_greet_conversing card config).of_run h
    refine ⟨xs ++ [], (hopens hopen hx).1.trans (.release (.nil _)), by rwa [List.append_nil], ?_⟩
    exact fun hok => nomatch hok
  | @completed t u _ hopen h =>
    obtain ⟨ht, xs, hx, hP⟩ := (moves_greet_conversing card config).of_run h
    obtain ⟨hs, htoken⟩ := hopens hopen hx
    exact ⟨xs, hs, hP, fun _ => ht.trans htoken⟩

end Session

/-! ## U2F -/

namespace U2f

variable {σ : Type}

/-- Where the user has to be verified, nothing is said. -/
theorem run_rejected {α : Type} {v : UserVerification} (h : v = .required) (f : Unit → Action (Session σ) Error α)
    (s : Session σ) : (Action.ofExcept id (rejectUserVerification v) >>= f) s =
      (.error (.unsupported "CTAP1 authenticators cannot verify the user"), s) := by
  subst h
  rfl

end U2f

end SecurityKey.Fido
