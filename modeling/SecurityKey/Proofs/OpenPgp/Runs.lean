import SecurityKey.OpenPgp.Session
import SecurityKey.Proofs.Action

/-!
# Runs of sessions with an OpenPGP card

What each action of a session does to a session, one equation an action.
-/

namespace SecurityKey.OpenPgp.Session

open Exchange (transmit)

variable {σ : Type} (card : Card σ)

/-- The command that reads the status of the PINs. -/
def statusApdu : Apdu.Command := (Apdu.Command.header 0x00 0xca 0x00 0xc4).withNe 256

/-- A command that has to be successful. -/
theorem run_request (c : Apdu.Command) (s : Session σ) : request card c s =
    match transmit card c chunkSize s.card with
    | (.error e, t) => (.error e, { s with card := t })
    | (.ok a, t) => (if a.isSuccess then .ok a else .error (statusError a.sw), { s with card := t }) := by
  have hcard : onCard (transmit card c chunkSize) s =
      ((transmit card c chunkSize s.card).1, { s with card := (transmit card c chunkSize s.card).2 }) := rfl
  rw [request, Action.run_bind, hcard]
  rcases transmit card c chunkSize s.card with ⟨e | a, t⟩
  · rfl
  · simp only
    split <;> rfl

/-- The status, read again. -/
theorem run_refreshStatus (s : Session σ) : refreshStatus card s =
    match request card statusApdu s with
    | (.error e, s) => (.error e, s)
    | (.ok a, s) =>
      match PinStatus.parse a.data with
      | .error e => (.error e, s)
      | .ok status => (.ok status, { s with status := some status }) := by
  unfold refreshStatus
  rw [Action.run_bind, ← statusApdu]
  rcases request card statusApdu s with ⟨e | a, t⟩
  · rfl
  · simp only [Action.run_bind]
    cases PinStatus.parse a.data <;> rfl

/-- The attempts left, as the card tells them. -/
theorem run_readRetries (r : PinReference) (s : Session σ) : readRetries card r s =
    match refreshStatus card s with
    | (.error _, s) => (.ok none, s)
    | (.ok status, s) => (.ok (some (status.retries r)), s) := by
  unfold readRetries
  rw [Action.run_bind, Action.run_observe]
  rcases refreshStatus card s with ⟨e | status, t⟩ <;> rfl

/-- A command that needs a PIN. -/
theorem run_requestFor (r : PinReference) (c : Apdu.Command) (s : Session σ) : requestFor card r c s =
    match transmit card c chunkSize s.card with
    | (.error e, t) => (.error e, { s with card := t })
    | (.ok a, t) =>
      if a.isSuccess then (.ok (), { s with card := t })
      else if a.sw = .securityStatusNotSatisfied then
        match refreshStatus card { s with card := t } with
        | (.error _, s) => (.error (attemptsError none), s)
        | (.ok status, s) => (.error (attemptsError (some (status.retries r))), s)
      else (.error (statusError a.sw), { s with card := t }) := by
  have hcard : onCard (transmit card c chunkSize) s =
      ((transmit card c chunkSize s.card).1, { s with card := (transmit card c chunkSize s.card).2 }) := rfl
  unfold requestFor
  rw [Action.run_bind, hcard]
  rcases transmit card c chunkSize s.card with ⟨e | a, t⟩
  · rfl
  · simp only
    split
    · rfl
    · split
      · rw [Action.run_bind, run_readRetries]
        rcases refreshStatus card { s with card := t } with ⟨e | status, u⟩ <;> rfl
      · rfl

/-- A PIN that is verified. -/
theorem run_verify (r : PinReference) (pin : Pin) (s : Session σ) : verify card r pin s =
    if s.verified r then (.ok (), s)
    else
      match requestFor card r (verifyApdu r pin) s with
      | (.error e, s) => (.error e, s)
      | (.ok (), s) => (.ok (), s.mark r true) := by
  unfold verify
  rw [Action.run_bind, Action.run_get]
  simp only
  split
  · rfl
  · rw [Action.run_bind]
    rcases requestFor card r (verifyApdu r pin) s with ⟨e | x, t⟩ <;> rfl

/-- The application selected on a card that is connected. -/
def selectConnected : Action (Session σ) Error PinStatus := do
  let _ ← request card (.select aid)
  refreshStatus card

/-- The application that is selected. -/
theorem run_select (s : Session σ) : select card s =
    if card.isConnected s.card then selectConnected card s.resetVerification
    else
      match card.connect s.card with
      | (.error e, t) => (.error (.ofLink e), { s with card := t })
      | (.ok (), t) => selectConnected card { s.resetVerification with card := t } := by
  unfold select
  rw [Action.run_bind, Action.run_get]
  simp only
  by_cases hc : card.isConnected s.card = true
  · rw [if_pos hc, if_neg (by simp [hc])]
    rfl
  · rw [if_neg hc, if_pos (by simp [hc])]
    have hcard : onCard (card.connect.adapt Error.ofLink) s =
        ((card.connect s.card).1.mapError Error.ofLink, { s with card := (card.connect s.card).2 }) := rfl
    rw [Action.run_bind, hcard]
    rcases card.connect s.card with ⟨e | x, t⟩ <;> rfl

/-- A new admin PIN. -/
theorem run_changeAdminPin (current new : Pin) (s : Session σ) : changeAdminPin card current new s =
    match knownStatus card s with
    | (.error e, s) => (.error e, s)
    | (.ok status, s) =>
      match checkLength new adminMin status.adminMax with
      | .error e => (.error e, s)
      | .ok () =>
        match requestFor card .admin (changeAdminApdu current new) s with
        | (.error e, s) => (.error e, s)
        | (.ok (), s) => (.ok (), s.mark .admin false) := by
  unfold changeAdminPin
  rw [Action.run_bind]
  rcases knownStatus card s with ⟨e | status, t⟩
  · rfl
  · simp only [Action.run_bind]
    cases checkLength new adminMin status.adminMax with
    | error e => rfl
    | ok x =>
      simp only [Action.run_ofExcept_ok]
      rcases requestFor card .admin (changeAdminApdu current new) t with ⟨e | x, u⟩ <;> rfl

/-- Both PINs changed. -/
theorem run_changePins (admin newAdmin newUser : Pin) (s : Session σ) : changePins card admin newAdmin newUser s =
    match knownStatus card s with
    | (.error e, s) => (.error e, s)
    | (.ok status, s) =>
      match checkLength newAdmin adminMin status.adminMax, checkLength newUser userMin status.userMax with
      | .ok (), .ok () => (changeAdminPin card admin newAdmin >>= fun _ => resetUserPin card newAdmin newUser) s
      | .error e, _ => (.error e, s)
      | .ok (), .error e => (.error e, s) := by
  unfold changePins
  rw [Action.run_bind]
  rcases knownStatus card s with ⟨e | status, t⟩
  · rfl
  · simp only [Action.run_bind]
    cases checkLength newAdmin adminMin status.adminMax with
    | error e => rfl
    | ok x =>
      simp only [Action.run_ofExcept_ok]
      cases checkLength newUser userMin status.userMax <;> rfl

end SecurityKey.OpenPgp.Session
