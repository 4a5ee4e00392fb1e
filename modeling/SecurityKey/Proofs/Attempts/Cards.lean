import SecurityKey.Proofs.Attempts.Counting
import SecurityKey.Proofs.OpenPgp.Runs

/-!
# Attempts at the PINs of an OpenPGP card

- `CountingCard`: a card that counts the attempts at its two PINs. After a refusal it tells what is left in the status
  word, or when its status is read, or that nothing is;
- however it tells, the error of a refused command is the same (`requestFor_of_refusal`), so that the caller knows the
  counters in any sequence of verifications (`tells_verifications`). A PIN that is remembered as verified is not
  submitted; the session may forget it in between.
-/

namespace SecurityKey.OpenPgp

open Apdu (StatusWord)
open Attempts (Counters Told Verdict)
open Exchange (transmit)
open Session (chunkSize statusApdu verifyApdu)

/-! ## Cards that count -/

/-- The PINs of a card. -/
inductive Secret
  | user
  | admin
  deriving DecidableEq

/-- The PIN that a reference is verified with. -/
def PinReference.secret : PinReference → Secret
  | signing => .user
  | other => .user
  | admin => .admin

variable {σ : Type}

/-- Data of the PIN status with these counters in it. -/
def HasCounters (left : Secret → UInt8) (data : Bytes) : Prop :=
  ∃ validity userMax resetMax adminMax reset rest,
    data = validity :: userMax :: resetMax :: adminMax :: left .user :: reset :: left .admin :: rest

/-- How a card tells what is left after a refusal: in the status word, where there is room for it, or in its status,
or that nothing is. -/
inductive Refusal (left : UInt8) (status : Prop) : StatusWord → Prop
  | counter (room : left ≤ 15) : Refusal left status ⟨0x63, 0xc0 ||| left⟩
  | blocked (none : left = 0) : Refusal left status .authMethodBlocked
  | bare (told : status) : Refusal left status .securityStatusNotSatisfied

/-- A card answers with its status, and nothing changes. -/
def TellsStatus (card : Card σ) (inReach : σ → Prop) (left : σ → Secret → UInt8) (c : σ) : Prop :=
  ∃ a c', transmit card statusApdu chunkSize c = (.ok a, c') ∧ a.isSuccess = true ∧ HasCounters (left c) a.data ∧
    inReach c' ∧ left c' = left c

/-- A card that counts the attempts at its PINs. -/
structure CountingCard (card : Card σ) where
  inReach : σ → Prop
  /-- How many attempts at a PIN are left. -/
  left : σ → Secret → UInt8
  IsPin : Secret → Bytes → Prop
  verify : ∀ {c} (r : PinReference) (pin : Pin), inReach c → ∃ a c',
    transmit card (verifyApdu r pin) chunkSize c = (.ok a, c') ∧ inReach c' ∧
    Verdict (¬ IsPin r.secret pin.bytes) (left c r.secret) a.isSuccess (left c' r.secret) ∧
    (∀ k, k ≠ r.secret → left c' k = left c k) ∧
    (a.isSuccess = false → Refusal (left c' r.secret) (TellsStatus card inReach left c') a.sw)

/-! ## Verifications -/

section Verifications

variable {card : Card σ} {s : Session σ} {left : UInt8}

theorem retries_of_hasCounters {counters : Secret → UInt8} {data : Bytes} (h : HasCounters counters data) :
    ∃ status, PinStatus.parse data = .ok status ∧ ∀ r : PinReference, status.retries r = counters r.secret := by
  obtain ⟨validity, userMax, resetMax, adminMax, reset, rest, rfl⟩ := h
  refine ⟨_, rfl, fun r => ?_⟩
  cases r <;> rfl

theorem attemptsError_eq (left : UInt8) : attemptsError (some left) = Attempts.refusal left := by
  unfold attemptsError Attempts.refusal
  split
  · rename_i h
    cases h
    rfl
  · rename_i h
    rw [if_neg fun h0 => h (congrArg some h0)]

theorem retries?_counter (h : left ≤ 15) : (StatusWord.mk 0x63 (0xc0 ||| left)).retries? = some left := by
  have hroom : ∀ n : Fin 16, (0xc0 ||| UInt8.ofNat n) &&& 0xf0 = 0xc0 ∧
      (0xc0 ||| UInt8.ofNat n) &&& 0x0f = UInt8.ofNat n := by decide
  have hlt : left.toNat < 16 := Nat.lt_succ_of_le (UInt8.le_iff_toNat_le.mp h)
  obtain ⟨hhigh, hlow⟩ := hroom ⟨left.toNat, hlt⟩
  simp only [UInt8.ofNat_toNat] at hhigh hlow
  unfold StatusWord.retries?
  simp only [hhigh, hlow, and_self, if_true]

/-- The status, read again, has the counters. -/
theorem refreshStatus_of_tells {inReach : σ → Prop} {counters : σ → Secret → UInt8}
    (h : TellsStatus card inReach counters s.card) : ∃ status t, Session.refreshStatus card s = (.ok status, t) ∧
      (∀ r : PinReference, status.retries r = counters s.card r.secret) ∧ inReach t.card ∧
      counters t.card = counters s.card := by
  obtain ⟨a, c, htransmit, hsuccess, hdata, hc, hsame⟩ := h
  obtain ⟨status, hparse, hretries⟩ := retries_of_hasCounters hdata
  refine ⟨status, { s with card := c, status := some status }, ?_, hretries, hc, hsame⟩
  rw [Session.run_refreshStatus, Session.run_request, htransmit]
  simp only [hsuccess, if_true, hparse]

variable (h : CountingCard card)

/-- However a card tells what is left after a refusal, the error is the same. -/
theorem requestFor_of_refusal {r : PinReference} {c : Apdu.Command} {a : Apdu.Response} {d : σ}
    (htransmit : transmit card c chunkSize s.card = (.ok a, d)) (hd : h.inReach d) (hrefused : a.isSuccess = false)
    (hsw : Refusal (h.left d r.secret) (TellsStatus card h.inReach h.left d) a.sw) :
    ∃ t, Session.requestFor card r c s = (.error (Attempts.refusal (h.left d r.secret)), t) ∧ h.inReach t.card ∧
      h.left t.card = h.left d := by
  rw [Session.run_requestFor, htransmit]
  simp only [hrefused, Bool.false_eq_true, if_false]
  generalize a.sw = sw at hsw
  cases hsw with
  | counter room =>
    have hne : (StatusWord.mk 0x63 (0xc0 ||| h.left d r.secret)) ≠ .securityStatusNotSatisfied := by
      intro he
      cases congrArg StatusWord.sw1 he
    refine ⟨{ s with card := d }, ?_, hd, rfl⟩
    rw [if_neg hne, statusError, retries?_counter room, ← attemptsError_eq]
  | blocked none =>
    refine ⟨{ s with card := d }, ?_, hd, rfl⟩
    rw [none]
    rfl
  | bare told =>
    obtain ⟨status, t, hrefresh, hretries, ht, hsame⟩ := refreshStatus_of_tells (s := { s with card := d }) told
    refine ⟨t, ?_, ht, hsame⟩
    rw [if_pos rfl, hrefresh, ← attemptsError_eq, ← hretries r]

/-- A verification and what the host tells of it. -/
theorem told_verify {r : PinReference} (hs : h.inReach s.card) (hr : s.verified r = false) (pin : Pin) :
    h.inReach (Session.verify card r pin s).2.card ∧
      Told (¬ h.IsPin r.secret pin.bytes) (h.left s.card r.secret)
        (h.left (Session.verify card r pin s).2.card r.secret) (Session.verify card r pin s).1 ∧
      ∀ k, k ≠ r.secret → h.left (Session.verify card r pin s).2.card k = h.left s.card k := by
  obtain ⟨a, c, htransmit, hc, hverdict, hothers, hrefusal⟩ := h.verify r pin hs
  rw [Session.run_verify, hr]
  simp only [Bool.false_eq_true, if_false]
  cases hsuccess : a.isSuccess with
  | true =>
    rw [hsuccess] at hverdict
    rw [Session.run_requestFor, htransmit]
    simp only [hsuccess, if_true]
    exact ⟨hc, .accepted hverdict nofun, hothers⟩
  | false =>
    rw [hsuccess] at hverdict
    obtain ⟨t, hrun, ht, hsame⟩ := requestFor_of_refusal h htransmit hc hsuccess (hrefusal hsuccess)
    rw [hrun]
    simp only [hsame]
    exact ⟨ht, .refused hverdict, hothers⟩

/-- What the user of a session does. -/
inductive Act
  | verify (r : PinReference) (pin : Pin)
  | useSignature
  | resetVerification

variable (card) in
/-- An act carried out. -/
def Act.run : Act → Action (Session σ) Error Unit
  | verify r pin => Session.verify card r pin
  | useSignature => modify Session.useSignature
  | resetVerification => modify Session.resetVerification

/-- The PIN that an act submits, where the session does not remember it as verified. -/
def Act.submits (s : Session σ) : Act → Option Secret
  | verify r _ => if s.verified r then none else some r.secret
  | useSignature => none
  | resetVerification => none

/-- Verifications, with anything forgotten in between. -/
def verifications : Counters (Session σ) Act Secret Unit where
  step := Act.run card
  submits := Act.submits
  Wrong
    | .verify r pin => ¬ h.IsPin r.secret pin.bytes
    | .useSignature => False
    | .resetVerification => False
  left s := h.left s.card

theorem card_useSignature (s : Session σ) : s.useSignature.card = s.card := by
  unfold Session.useSignature
  split <;> rfl

/-- A PIN that is remembered as verified is not submitted. -/
theorem verify_of_verified {r : PinReference} (hr : s.verified r = true) (pin : Pin) :
    Session.verify card r pin s = (.ok (), s) := by
  rw [Session.run_verify, if_pos hr]

theorem tells_verifications : (verifications h).Tells fun s => h.inReach s.card where
  keeps {s} act hs := by
    cases act with
    | verify r pin =>
      cases hr : s.verified r with
      | true =>
        show h.inReach (Session.verify card r pin s).2.card
        rwa [verify_of_verified hr]
      | false => exact (told_verify h hs hr pin).1
    | useSignature =>
      show h.inReach s.useSignature.card
      rwa [card_useSignature]
    | resetVerification => exact hs
  submission {s act k} hs hk := by
    cases act with
    | verify r pin =>
      cases hr : s.verified r with
      | true => simp [verifications, Act.submits, hr] at hk
      | false =>
        obtain rfl : r.secret = k := by simpa [verifications, Act.submits, hr] using hk
        exact (told_verify h hs hr pin).2.1
    | useSignature => cases hk
    | resetVerification => cases hk
  others {s act k} hs hk := by
    cases act with
    | verify r pin =>
      cases hr : s.verified r with
      | true =>
        show h.left (Session.verify card r pin s).2.card k = _
        rw [verify_of_verified hr]
        rfl
      | false =>
        have hne : k ≠ r.secret := by
          rintro rfl
          simp [verifications, Act.submits, hr] at hk
        exact (told_verify h hs hr pin).2.2 k hne
    | useSignature =>
      show h.left s.useSignature.card k = _
      rw [card_useSignature]
      rfl
    | resetVerification => rfl

end Verifications

end SecurityKey.OpenPgp
