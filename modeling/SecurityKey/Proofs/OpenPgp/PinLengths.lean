import SecurityKey.Proofs.OpenPgp.Conversation
import SecurityKey.Proofs.Simulated.Card

/-!
# New PINs of a length that is not allowed

A PIN that is too short or too long is of no use to the card, so it is better not to begin at all.

- `Unfit` is a PIN of a length that is not allowed, with the error that says so, and `PinChange` a call that changes
  PINs;
- `TurnedDown`: a call fails for an unfit PIN, with nothing sent and nothing changed;
- to change the admin PIN or both PINs is turned down wherever a new PIN is unfit, and so is to set the user PIN once
  the admin PIN is verified. But the admin PIN that is not verified yet is verified first (`says_user_of_unfit`);
- so it is only then that a call with an unfit PIN is not turned down (`PinChange.turnedDown_iff`).
-/

namespace SecurityKey.OpenPgp

open Exchange (Recorded recording)
open Session (Says)

/-! ## Lengths -/

/-- A PIN is shorter than the shortest or longer than the longest one that is allowed, where zero allows any. -/
inductive Unfit (pin : Pin) (min : Nat) (max : UInt8) : Error → Prop
  | short (h : pin.bytes.length < min) : Unfit pin min max .pinTooShort
  | long (hmax : max ≠ 0) (h : max.toNat < pin.bytes.length) : Unfit pin min max .pinTooLong

section Lengths

variable {pin : Pin} {min : Nat} {max : UInt8} {e : Error}

theorem Unfit.of_checkLength (h : checkLength pin min max = .error e) : Unfit pin min max e := by
  unfold checkLength at h
  simp only at h
  split at h
  · rename_i hshort
    cases h
    exact .short hshort
  split at h
  · rename_i hlong
    cases h
    exact .long (UInt8.pos_iff_ne_zero.mp hlong.1) hlong.2
  · cases h

/-- The check finds out that a PIN is unfit. Which error it tells of a PIN that is both too short and too long is left
to it. -/
theorem Unfit.exists_checkLength (h : Unfit pin min max e) :
    ∃ e', checkLength pin min max = .error e' ∧ Unfit pin min max e' := by
  cases hc : checkLength pin min max with
  | error e' => exact ⟨e', rfl, .of_checkLength hc⟩
  | ok x =>
    unfold checkLength at hc
    simp only at hc
    split at hc
    · cases hc
    split at hc
    · cases hc
    rename_i hshort hlong
    cases h with
    | short h => exact absurd h hshort
    | long hmax h => exact absurd ⟨UInt8.pos_iff_ne_zero.mpr hmax, h⟩ hlong

end Lengths

/-! ## Calls -/

/-- A call that changes PINs. -/
inductive PinChange
  | admin (current new : Pin)
  | user (adminPin new : Pin)
  | both (adminPin newAdmin newUser : Pin)

namespace PinChange

variable {σ : Type}

/-- What a call does. -/
def run (card : Card σ) : PinChange → Action (Session σ) Error Unit
  | admin current new => Session.changeAdminPin card current new
  | user adminPin new => Session.resetUserPin card adminPin new
  | both adminPin newAdmin newUser => Session.changePins card adminPin newAdmin newUser

/-- A new PIN of a call is unfit for a card of the given status. -/
def Unfit (status : PinStatus) : PinChange → Error → Prop
  | admin _ new => OpenPgp.Unfit new adminMin status.adminMax
  | user _ new => OpenPgp.Unfit new userMin status.userMax
  | both _ newAdmin newUser => fun e =>
    OpenPgp.Unfit newAdmin adminMin status.adminMax e ∨ OpenPgp.Unfit newUser userMin status.userMax e

/-- A call fails for an unfit PIN. Nothing is sent to the card, and what the session knows remains. -/
def TurnedDown (card : Card σ) (s : Session (Recorded σ)) (status : PinStatus) (change : PinChange) : Prop :=
  ∃ e, change.Unfit status e ∧ change.run (recording card) s = (.error e, s)

section Known

variable {card : Card σ} {s : Session σ} {status : PinStatus} (hs : s.status = some status) {e : Error}

include hs

theorem run_admin_of_unfit {current new : Pin} (hlength : checkLength new adminMin status.adminMax = .error e) :
    (admin current new).run card s = (.error e, s) := by
  rw [run, Session.run_changeAdminPin, Session.run_knownStatus_of_known hs]
  simp only [hlength]

theorem run_setUserPin_of_unfit {new : Pin} (hlength : checkLength new userMin status.userMax = .error e) :
    Session.setUserPin card new s = (.error e, s) := by
  unfold Session.setUserPin
  rw [Action.bind_of_ok (Session.run_knownStatus_of_known hs), hlength]
  rfl

/-- Of an admin PIN that is verified nothing is asked. -/
theorem run_user_of_unfit {adminPin new : Pin} (hv : s.verified .admin = true)
    (hlength : checkLength new userMin status.userMax = .error e) : (user adminPin new).run card s = (.error e, s) := by
  have hverify : Session.verify card .admin adminPin s = (.ok (), s) := by rw [Session.run_verify, if_pos hv]
  rw [run, Session.resetUserPin_eq, Action.bind_of_ok hverify, run_setUserPin_of_unfit hs hlength]

/-- An admin PIN that is not verified yet is verified, though the new user PIN is unfit. -/
theorem says_user_of_unfit {adminPin new : Pin} (hv : s.verified .admin = false)
    (hlength : checkLength new userMin status.userMax = .error e) :
    Says card ((user adminPin new).run card) s fun xs _ _ =>
      xs.head?.map (·.command) = some (Session.verifyApdu .admin adminPin) := by
  rw [run, Session.resetUserPin_eq]
  refine (Session.says_verify hv).bind ?_ ?_
  · rintro t xs e (_ | ⟨h, hasks⟩)
    rfl
  · rintro t xs x - (⟨ht⟩ | _)
    have hrun : Session.setUserPin card new t = (.error e, t) := run_setUserPin_of_unfit (ht.trans hs) hlength
    exact .quiet (by rw [hrun]) rfl

end Known

variable {card : Card σ} {s : Session (Recorded σ)} {status : PinStatus}

/-- Where a new PIN is unfit, to set the user PIN is not turned down while the admin PIN is not verified. -/
theorem not_turnedDown_user (hs : s.status = some status) (hv : s.verified .admin = false) (adminPin new : Pin) :
    ¬ TurnedDown card s status (user adminPin new) := by
  rintro ⟨e, hunfit, hrun⟩
  obtain ⟨e', hlength, -⟩ := Unfit.exists_checkLength hunfit
  have hsays : Says (recording card) ((user adminPin new).run (recording card)) s fun xs _ _ =>
      xs.head?.map (·.command) = some (Session.verifyApdu .admin adminPin) := says_user_of_unfit hs hv hlength
  obtain ⟨xs, hx, hfirst⟩ := hsays
  rw [hrun] at hx
  obtain rfl := hx.eq_nil _ rfl
  cases hfirst

/-- **Which calls are turned down for an unfit PIN.** Whatever a session with a known status remembers, whatever a card
does, and whichever new PIN of a call is too short or too long: the call fails and says so, with nothing sent and
nothing changed, but for a user PIN that is set while the admin PIN is not verified. -/
theorem turnedDown_iff (hs : s.status = some status) (change : PinChange) (hunfit : ∃ e, change.Unfit status e) :
    TurnedDown card s status change ↔ ∀ adminPin new, change = user adminPin new → s.verified .admin = true := by
  constructor
  · rintro hdown adminPin new rfl
    cases hv : s.verified .admin with
    | false => exact absurd hdown (not_turnedDown_user hs hv adminPin new)
    | true => rfl
  intro hverified
  obtain ⟨e, hunfit⟩ := hunfit
  cases change with
  | admin current new =>
    obtain ⟨e', hlength, hunfit'⟩ := OpenPgp.Unfit.exists_checkLength hunfit
    exact ⟨e', hunfit', run_admin_of_unfit hs hlength⟩
  | user adminPin new =>
    obtain ⟨e', hlength, hunfit'⟩ := OpenPgp.Unfit.exists_checkLength hunfit
    exact ⟨e', hunfit', run_user_of_unfit hs (hverified adminPin new rfl) hlength⟩
  | both adminPin newAdmin newUser =>
    have hrun := Session.run_changePins (recording card) adminPin newAdmin newUser s
    rw [Session.run_knownStatus_of_known hs] at hrun
    cases hadmin : checkLength newAdmin adminMin status.adminMax with
    | error e' =>
      simp only [hadmin] at hrun
      exact ⟨e', .inl (.of_checkLength hadmin), hrun⟩
    | ok x =>
      -- then it is the user PIN that is unfit
      rcases hunfit with hunfit | hunfit
      · obtain ⟨e', hlength, -⟩ := hunfit.exists_checkLength
        cases hadmin.symm.trans hlength
      · obtain ⟨e', huser, hunfit'⟩ := hunfit.exists_checkLength
        simp only [hadmin, huser] at hrun
        exact ⟨e', .inr hunfit', hrun⟩

/-- A session that knows the status of its card, and has verified no PIN. -/
def knowing (status : PinStatus) : Session (Recorded Simulated.Card) :=
  ⟨⟨.ofScript [], []⟩, some status, fun _ => false⟩

/-- A usual status of a card. -/
def usualStatus : PinStatus := ⟨false, 32, 32, 32, 3, 3, 3⟩

/-- An admin PIN of seven bytes is turned down. -/
theorem turnedDown_seven_bytes :
    let change : PinChange := both ⟨"12345678"⟩ ⟨"1234567"⟩ ⟨"654321"⟩
    (knowing usualStatus).status = some usualStatus ∧ (∃ e, change.Unfit usualStatus e) ∧
      TurnedDown Simulated.Card.card (knowing usualStatus) usualStatus change := by
  intro change
  have hunfit : ∃ e, change.Unfit usualStatus e := ⟨_, .inl (.short (by decide))⟩
  exact ⟨rfl, hunfit, (turnedDown_iff rfl change hunfit).mpr nofun⟩

/-- A user PIN of three bytes is not, while the admin PIN is not verified. -/
theorem not_turnedDown_three_bytes :
    ¬ ∀ s status change, s.status = some status → (∃ e, change.Unfit status e) →
      TurnedDown Simulated.Card.card s status change := by
  intro hall
  have hunfit : ∃ e, (user ⟨"12345678"⟩ ⟨"123"⟩).Unfit usualStatus e := ⟨_, .short (by decide)⟩
  exact not_turnedDown_user rfl rfl _ _ (hall (knowing usualStatus) usualStatus (user ⟨"12345678"⟩ ⟨"123"⟩) rfl hunfit)

end PinChange

end SecurityKey.OpenPgp
