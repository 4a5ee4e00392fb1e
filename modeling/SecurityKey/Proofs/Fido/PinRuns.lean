import SecurityKey.Fido.Pin
import SecurityKey.Proofs.Action

/-!
# Runs of the PIN operations

What an operation comes to when the results of its requests are known, request by request: the agreement
(`run_agree`), the check of the attempts (`run_checkRetries`), and the three operations.
-/

namespace SecurityKey.Fido

open Credential (PublicKey)
open Crypto (KeyPair PinToken)

variable {σ : Type}

/-- The session after a key pair was taken: one that is made up counts. -/
def Session.drew (secret : Option Bytes) (s : Session σ) : Session σ :=
  if secret.isNone then { s with keysMade := s.keysMade + 1 } else s

@[simp]
theorem Session.card_drew (secret : Option Bytes) (s : Session σ) : (s.drew secret).card = s.card := by
  cases secret <;> rfl

namespace Pin

/-- The host's key pair: of given secret bytes, or the next one made up. -/
def pairFrom (config : Config) (secret : Option Bytes) (made : Nat) : Except Crypto.Error KeyPair :=
  match secret with
  | some b => KeyPair.ofBytes b
  | none => .ok (config.freshKey made)

/-- The token in an answer. -/
def tokenIn (key : Bytes) (r : Ctap.PinResponse) : Except Error PinToken :=
  match r.pinToken with
  | none => .error (.protocol "getPINToken response without token")
  | some encrypted => (PinToken.decrypt key encrypted).mapError Error.ofCrypto

/-- There is an attempt to use: at least two are left, or the last one with the caller's consent. -/
def HasAttempt (retries : UInt8) (lastAttemptOk : Bool) : Prop := 2 ≤ retries ∨ retries = 1 ∧ lastAttemptOk = true

theorem HasAttempt.ne_zero {retries : UInt8} {lastAttemptOk : Bool} (h : HasAttempt retries lastAttemptOk) :
    retries ≠ 0 := by
  rintro rfl
  rcases h with h | ⟨h, -⟩
  · exact absurd h (by decide)
  · exact absurd h (by decide)

/-- A PIN that may be set fits into its padding. -/
theorem length_le_of_checkPolicy {pin : Pin} (h : checkPolicy pin = .ok ()) :
    (Bytes.ofString pin.text).length ≤ 63 := by
  unfold checkPolicy at h
  split at h
  · cases h
  · split at h
    · cases h
    · rename_i hlong
      exact Nat.le_of_not_lt hlong

variable {card : Card σ} {config : Config} {s t u v : Session σ} {secret : Option Bytes} {lastAttemptOk : Bool}
  {n : UInt8} {a : Agreement} {r : Ctap.PinResponse} {answer : Except Error Ctap.PinResponse} {pin newPin : Pin}
  {hashEnc newEnc : Bytes}

theorem run_hostPair (secret : Option Bytes) (s : Session σ) : hostPair config secret s =
    ((pairFrom config secret s.keysMade).mapError Error.ofCrypto, s.drew secret) := by
  cases secret <;> rfl

theorem run_agree {device : PublicKey} {k : KeyPair}
    (hrequest : request card config (.getKeyAgreement protocol) s = (.ok r, t)) (hdevice : r.keyAgreement = some device)
    (hk : pairFrom config secret t.keysMade = .ok k) (ha : agreementWith k device = .ok a) :
    agree card config secret s = (.ok a, t.drew secret) := by
  unfold agree
  rw [Action.bind_of_ok hrequest]
  simp only [hdevice]
  rw [Action.run_bind, run_hostPair, hk]
  simp only [Action.mapError_ok, ha, Action.run_ofExcept_ok]

/-- The attempts that are left. -/
theorem run_getRetries (hrequest : request card config (.getRetries protocol) s = (.ok r, t))
    (hretries : r.retries = some n.toUInt64) : getRetries card config s = (.ok n, t) := by
  have hmin : UInt8.ofNat (min n.toUInt64.toNat 255) = n := by
    have hlt := n.toNat_lt
    have hmod : n.toUInt64.toNat = n.toNat := UInt8.toNat_toUInt64 n
    rw [hmod, Nat.min_eq_left (by omega), UInt8.ofNat_toNat]
  unfold getRetries
  rw [Action.bind_of_ok hrequest]
  simp only [hretries, Action.run_pure, hmin]

/-- The attempts that are left, when there are enough of them. -/
theorem run_checkRetries (hrequest : request card config (.getRetries protocol) s = (.ok r, t))
    (hretries : r.retries = some n.toUInt64) (hn : HasAttempt n lastAttemptOk) :
    checkRetries card config lastAttemptOk s = (.ok n, t) := by
  have hallowed : (decide (n = 1) && !lastAttemptOk) = false := by
    rcases hn with h | ⟨-, h⟩
    · have hne : n ≠ 1 := by
        rintro rfl
        exact absurd h (by decide)
      simp [hne]
    · simp [h]
  unfold checkRetries
  rw [Action.bind_of_ok (run_getRetries hrequest hretries)]
  simp only [hn.ne_zero, if_false, hallowed, Bool.false_eq_true, Action.run_pure]

/-- Without an attempt nothing else is asked for. -/
theorem run_checkRetries_of_zero (hrequest : request card config (.getRetries protocol) s = (.ok r, t))
    (hretries : r.retries = some 0) : checkRetries card config lastAttemptOk s = (.error .blocked, t) := by
  unfold checkRetries
  rw [Action.bind_of_ok (run_getRetries (n := 0) hrequest hretries)]
  rfl

/-- Of a submission that was answered, only the last step can fail. -/
theorem run_getPinToken (hretries : checkRetries card config lastAttemptOk s = (.ok n, t))
    (hagree : agree card config secret t = (.ok a, u))
    (henc : Crypto.PinProtocol.pinHashEnc a.sessionKey pin.text = .ok hashEnc)
    (hrequest : request card config (.getPinToken protocol a.hostKey hashEnc) u = (answer, v)) :
    getPinToken card config secret pin lastAttemptOk s =
      ((answer.mapError (wrongPinError n)).bind (tokenIn a.sessionKey), v) := by
  have hsubmit : submit card config n (.getPinToken protocol a.hostKey hashEnc) u =
      (answer.mapError (wrongPinError n), v) := by
    rw [submit, Action.run_adapt, hrequest]
  unfold getPinToken
  rw [Action.bind_of_ok hretries, Action.bind_of_ok hagree, henc, Action.bind_of_ok (Action.run_ofExcept_ok ..),
    Action.run_bind, hsubmit]
  cases answer with
  | error e => rfl
  | ok response =>
    simp only [Action.mapError_ok, Except.bind, tokenIn]
    cases response.pinToken <;> rfl

theorem run_setPin (hpolicy : checkPolicy newPin = .ok ()) (hagree : agree card config secret s = (.ok a, t))
    (hnew : Crypto.PinProtocol.newPinEnc a.sessionKey newPin.text = .ok newEnc)
    (hrequest : request card config
      (.setPin protocol a.hostKey newEnc (Crypto.PinProtocol.authenticate a.sessionKey newEnc)) t = (.ok r, u)) :
    setPin card config secret newPin s = (.ok (), u) := by
  unfold setPin
  rw [hpolicy, Action.bind_of_ok (Action.run_ofExcept_ok ..), Action.bind_of_ok hagree, hnew,
    Action.bind_of_ok (Action.run_ofExcept_ok ..), Action.bind_of_ok hrequest]
  rfl

/-- The request that changes the PIN is sent without a token in the session. -/
theorem run_changePin {current : Pin} (hpolicy : checkPolicy newPin = .ok ())
    (hretries : checkRetries card config lastAttemptOk s = (.ok n, t))
    (hagree : agree card config secret t = (.ok a, u))
    (hnew : Crypto.PinProtocol.newPinEnc a.sessionKey newPin.text = .ok newEnc)
    (henc : Crypto.PinProtocol.pinHashEnc a.sessionKey current.text = .ok hashEnc)
    (hrequest : request card config (.changePin protocol a.hostKey newEnc hashEnc
      (Crypto.PinProtocol.authenticate a.sessionKey (newEnc ++ hashEnc))) u.clearPinToken = (.ok r, v)) :
    changePin card config secret current newPin lastAttemptOk s = (.ok (), v) := by
  have hsubmit : submit card config n (.changePin protocol a.hostKey newEnc hashEnc
      (Crypto.PinProtocol.authenticate a.sessionKey (newEnc ++ hashEnc))) u.clearPinToken = (.ok r, v) := by
    rw [submit, Action.run_adapt, hrequest]
    rfl
  unfold changePin
  rw [hpolicy, Action.bind_of_ok (Action.run_ofExcept_ok ..), Action.bind_of_ok hretries, Action.bind_of_ok hagree,
    hnew, henc, Action.bind_of_ok (Action.run_ofExcept_ok ..), Action.bind_of_ok (Action.run_ofExcept_ok ..),
    Action.bind_of_ok (Action.run_modify ..), Action.bind_of_ok hsubmit]
  rfl

end Pin

end SecurityKey.Fido
