import SecurityKey.Proofs.Fido.Issuance
import SecurityKey.Proofs.Fido.PinRuns
import SecurityKey.Proofs.Simulated.PinRequests

/-!
# PIN requests to an authenticator in reach

- `InReach`: behind a card there is an authenticator that answers what the card is sent; a simulated card is such a
  card (`inReach_card`);
- a PIN request gets the authenticator's answer, or the error of its refusal (`Pin.request_answered`,
  `Pin.request_refused`);
- so the attempts are checked (`Pin.checkRetries_answered`), and both sides agree (`Pin.agree_answered`).
-/

namespace SecurityKey.Fido

open Crypto (KeyPair PinToken)
open Ctap (ClientPin PinResponse Status)
open Session (ctap2Apdu)
open Simulated (Authenticator)

variable {σ : Type}

/-- An authenticator in reach of a card. A state of the card shows the authenticator in its state, and the messages
that it has heard. Messages of 1024 bytes, which every authenticator takes, are answered. -/
structure InReach (card : Card σ) (size : Nat) (shows : σ → Authenticator → List Bytes → Prop) : Prop where
  answers : ∀ {c : σ} {a : Authenticator} {heard : List Bytes} (message : Bytes), shows c a heard → a.ctap2 = true →
    message.length ≤ 1024 → ∃ c', Exchange.transmit card (ctap2Apdu message) size c =
      (.ok (a.process (ctap2Apdu message)).1, c') ∧ shows c' (a.process (ctap2Apdu message)).2 (heard ++ [message])

theorem inReach_card (size : Nat) : InReach Simulated.Card.card size Simulated.Card.Holds :=
  ⟨fun message h ha _ => Simulated.Card.transmit_holding h ha message size⟩

/-- An authenticator that knows PINs. -/
structure KnowsPins (a : Authenticator) : Prop where
  ctap2 : a.ctap2 = true
  pinSupported : a.pinSupported = true

/-- Each side computes the same secret from the other's public key. -/
def KeyAgreement (k l : KeyPair) (shared : Bytes) : Prop :=
  k.agreeCoordinates l.x l.y = .ok shared ∧ l.agreeCoordinates k.x k.y = .ok shared

/-- A point that two key pairs share: each one's scalar times the other's point, both of which are on the curve. -/
structure SharedPoint (k l : KeyPair) (p : Crypto.P256.Point) : Prop where
  isOnCurve : k.point.isOnCurve = true ∧ l.point.isOnCurve = true
  mul_left : Crypto.P256.mul k.scalar l.point = some p
  mul_right : Crypto.P256.mul l.scalar k.point = some p

/-- What the sides of a shared point compute is its first coordinate. -/
theorem SharedPoint.keyAgreement {k l : KeyPair} {p : Crypto.P256.Point} (h : SharedPoint k l p) :
    KeyAgreement k l (Bytes.ofNat 32 p.x) :=
  ⟨KeyPair.agreeCoordinates_of_mul h.isOnCurve.2 h.mul_left, KeyPair.agreeCoordinates_of_mul h.isOnCurve.1 h.mul_right⟩

namespace Pin

variable {card : Card σ} {config : Config} {shows : σ → Authenticator → List Bytes → Prop} {s : Session σ}
  {a a' : Authenticator} {heard : List Bytes} {r : ClientPin} {secret : Option Bytes} {lastAttemptOk : Bool}

theorem request_of_shows (hreach : InReach card config.chunkSize shows) (h : shows s.card a heard)
    (ha : KnowsPins a) (hr : r.Bounded 64) : ∃ c, request card config r s =
      (readAnswer (.ok (.ok (Authenticator.pinData (Authenticator.clientPin r.toValue a).1))), { s with card := c }) ∧
      shows c (Authenticator.clientPin r.toValue a).2 (heard ++ [r.toBytes]) := by
  have hlength : r.toBytes.length ≤ 1024 := by
    have := ClientPin.length_toBytes_le hr
    omega
  obtain ⟨c, htransmit, hc⟩ := hreach.answers r.toBytes h ha.ctap2 hlength
  rw [Authenticator.process_pinRequest ha.ctap2 hr (by decide)] at htransmit hc
  exact ⟨c, request_of_transmit (Session.transmit_of_exchange htransmit), hc⟩

theorem readAnswer_pinData {response : PinResponse}
    (htoken : ∀ token, response.pinToken = some token → token.length < 2 ^ 64) :
    readAnswer (.ok (.ok (Authenticator.pinData (.ok response)))) = .ok response := by
  have hstable := response.stable_toValue htoken
  have hparse : Ctap.parseResponse (Ctap.response (some response.toValue)) = .ok (some response.toValue) := by
    rw [Ctap.parseResponse_response hstable.fits (Nat.le_trans hstable.need_le (by decide)), hstable.canonical]
  have hbody : Session.ctap2Answer (.ok (.ok (Authenticator.pinData (.ok response)))) =
      .ok (some response.toValue) := by
    show (Ctap.parseResponse (Ctap.response (some response.toValue))).mapError Error.ofCtap = _
    rw [hparse]
    rfl
  unfold readAnswer
  rw [hbody]
  show (PinResponse.ofValue? (some response.toValue)).mapError Error.ofCbor = _
  rw [response.ofValue?_toValue]
  rfl

theorem readAnswer_refusal {status : Status} (hstatus : Status.ofByte status.toByte = status)
    (hfailure : status ≠ .success) :
    readAnswer (.ok (.ok (Authenticator.pinData (.error status)))) = .error (.ofStatus status) := by
  have hparse : Ctap.parseResponse [status.toByte] = .error (.status status) := by
    unfold Ctap.parseResponse
    simp only [hstatus]
  have hbody : Session.ctap2Answer (.ok (.ok (Authenticator.pinData (.error status)))) =
      .error (.ofStatus status) := by
    show (Ctap.parseResponse [status.toByte]).mapError Error.ofCtap = _
    rw [hparse]
    rfl
  unfold readAnswer
  rw [hbody]
  rfl

/-- The authenticator's answer. -/
theorem request_answered {response : PinResponse} (hreach : InReach card config.chunkSize shows)
    (h : shows s.card a heard) (ha : KnowsPins a) (hr : r.Bounded 64)
    (hrun : Authenticator.clientPin r.toValue a = (.ok response, a'))
    (htoken : ∀ token, response.pinToken = some token → token.length < 2 ^ 64) :
    ∃ c, request card config r s = (.ok response, { s with card := c }) ∧ shows c a' (heard ++ [r.toBytes]) := by
  obtain ⟨c, hrequest, hc⟩ := request_of_shows hreach h ha hr
  rw [hrun] at hrequest hc
  rw [readAnswer_pinData htoken] at hrequest
  exact ⟨c, hrequest, hc⟩

/-- A refusal that tells why. -/
theorem request_refused {status : Status} (hreach : InReach card config.chunkSize shows) (h : shows s.card a heard)
    (ha : KnowsPins a) (hr : r.Bounded 64) (hrun : Authenticator.clientPin r.toValue a = (.error status, a'))
    (hstatus : Status.ofByte status.toByte = status) (hfailure : status ≠ .success) :
    ∃ c, request card config r s = (.error (.ofStatus status), { s with card := c }) ∧
      shows c a' (heard ++ [r.toBytes]) := by
  obtain ⟨c, hrequest, hc⟩ := request_of_shows hreach h ha hr
  rw [hrun] at hrequest hc
  rw [readAnswer_refusal hstatus hfailure] at hrequest
  exact ⟨c, hrequest, hc⟩

/-! ## Before a PIN is sent -/

theorem bounded_getRetries (n : Nat) : (ClientPin.getRetries protocol).Bounded n :=
  ⟨nofun, nofun, nofun⟩

theorem bounded_getKeyAgreement (n : Nat) : (ClientPin.getKeyAgreement protocol).Bounded n :=
  ⟨nofun, nofun, nofun⟩

/-- The attempts that are left are what the authenticator says. -/
theorem checkRetries_answered (hreach : InReach card config.chunkSize shows) (h : shows s.card a heard)
    (ha : KnowsPins a) (hretries : HasAttempt a.retries lastAttemptOk) :
    ∃ c, checkRetries card config lastAttemptOk s = (.ok a.retries, { s with card := c }) ∧
      shows c a (heard ++ [(ClientPin.getRetries protocol).toBytes]) := by
  obtain ⟨c, hrequest, hc⟩ := request_answered hreach h ha (bounded_getRetries 64)
    (Authenticator.run_clientPin ha.pinSupported _) nofun
  exact ⟨c, run_checkRetries hrequest rfl hretries, hc⟩

/-- The host's side of an agreement. -/
theorem agreementWith_of_keyAgreement {host device : KeyPair} {shared : Bytes} (h : KeyAgreement host device shared) :
    agreementWith host (Simulated.publicKey .ecdhEsHkdf256 device) =
      .ok ⟨hostKey host, Crypto.PinProtocol.sessionKey shared⟩ := by
  show host.agreeCoordinates device.x device.y >>= _ = _
  rw [h.1]
  rfl

/-- A host and an authenticator whose key pairs agree have the same session key. -/
theorem agree_answered {host : KeyPair} {shared : Bytes} (hreach : InReach card config.chunkSize shows)
    (h : shows s.card a heard) (ha : KnowsPins a) (hhost : pairFrom config secret s.keysMade = .ok host)
    (hshared : KeyAgreement host a.agreementKey shared) :
    ∃ t, agree card config secret s = (.ok ⟨hostKey host, Crypto.PinProtocol.sessionKey shared⟩, t) ∧
      shows t.card a (heard ++ [(ClientPin.getKeyAgreement protocol).toBytes]) := by
  obtain ⟨c, hrequest, hc⟩ := request_answered hreach h ha (bounded_getKeyAgreement 64)
    (Authenticator.run_clientPin ha.pinSupported _) nofun
  refine ⟨_, run_agree hrequest rfl hhost (agreementWith_of_keyAgreement hshared), ?_⟩
  rw [Session.card_drew]
  exact hc

/-! ## Sessions with a simulated authenticator -/

/-- A session with an authenticator in reach. -/
def sessionWith (a : Authenticator) : Session Simulated.Card := .new (.ofAuthenticator a)

theorem holds_sessionWith (a : Authenticator) : (sessionWith a).card.Holds a [] :=
  Simulated.Card.holds_ofAuthenticator a

/-- An authenticator with a PIN. -/
def withDigits : Authenticator := { Authenticator.new with pin := some "1234" }

/-- A configuration with one key pair for everything. -/
def fixedKeys : Config := .standard fun _ => Authenticator.new.agreementKey

/-- A secret of the host. -/
def hostSecret : Bytes := List.replicate 32 0x11

/-- The host's pair and the one of a new authenticator share a point. -/
theorem exists_sharedPoint : ∃ host p, KeyPair.ofBytes hostSecret = .ok host ∧
    SharedPoint host Authenticator.new.agreementKey p := by
  let device := Authenticator.new.agreementKey
  -- The products are compared by their coordinates, which the kernel computes one by one.
  have h : ((KeyPair.ofBytes hostSecret).toOption.bind fun host =>
      (Crypto.P256.mul host.scalar device.point).bind fun p =>
        (Crypto.P256.mul device.scalar host.point).filter fun q => (host.point.isOnCurve && device.point.isOnCurve) &&
          (q.x == p.x && q.y == p.y)).isSome = true := by decide +kernel
  obtain ⟨q, h⟩ := Option.isSome_iff_exists.mp h
  obtain ⟨host, hhost, h⟩ := Option.bind_eq_some_iff.mp h
  obtain ⟨p, hleft, h⟩ := Option.bind_eq_some_iff.mp h
  obtain ⟨hright, h⟩ := Option.filter_eq_some_iff.mp h
  simp only [Bool.and_eq_true, beq_iff_eq] at h
  obtain ⟨hcurve, hx, hy⟩ := h
  have hpoint : (⟨q.x, q.y⟩ : Crypto.P256.Point) = ⟨p.x, p.y⟩ := by rw [hx, hy]
  exact ⟨host, p, Action.eq_ok_of_toOption hhost, hcurve, hleft, hright.trans (congrArg some hpoint)⟩

theorem exists_keyAgreement : ∃ host shared, KeyPair.ofBytes hostSecret = .ok host ∧
    KeyAgreement host Authenticator.new.agreementKey shared := by
  obtain ⟨host, p, hhost, hshared⟩ := exists_sharedPoint
  exact ⟨host, _, hhost, hshared.keyAgreement⟩

end Pin

end SecurityKey.Fido
