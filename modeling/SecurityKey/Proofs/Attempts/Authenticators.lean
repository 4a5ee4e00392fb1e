import SecurityKey.Proofs.Attempts.Counting
import SecurityKey.Proofs.Fido.PinAgreement

/-!
# Attempts at the PIN of an authenticator

- `CountingAuthenticator`: an authenticator in reach of a card that counts the attempts at its PIN. Its counter may be
  anything, and its key may change between requests; an authenticator inside a simulated card is such an authenticator
  (`countingSimulated`);
- the host reads the counter before a submission, and tells the caller what is left after it
  (`told_getPinToken`), so that the caller knows the counter in any sequence of submissions (`tells_submissions`).
-/

namespace SecurityKey.Fido.Pin

open Attempts (Counters Told Verdict)
open Credential (PublicKey)
open Crypto (KeyPair PinToken)
open Crypto.PinProtocol (decrypt hashPin sessionKey)
open Ctap (ClientPin PinResponse Status)
open Session (ctap2Apdu)
open Simulated (Authenticator publicKey)

variable {σ : Type}

/-! ## Authenticators that count -/

/-- The exchange of a PIN request and its answer. -/
def Exchanges (card : Card σ) (size : Nat) (r : ClientPin) (answer : Except Status PinResponse) (c c' : σ) : Prop :=
  Exchange.transmit card (ctap2Apdu r.toBytes) size c = (.ok (.ok (Authenticator.pinData answer)), c')

/-- The answer to a submission, by how many attempts are left then. -/
inductive TokenAnswer (left : UInt8) : Except Status PinResponse → Prop
  | token {encrypted : Bytes} (short : encrypted.length < 2 ^ 64) :
      TokenAnswer left (.ok { PinResponse.empty with pinToken := some encrypted })
  | invalid : TokenAnswer left (.error .pinInvalid)
  | blocked (none : left = 0) : TokenAnswer left (.error .pinBlocked)

/-- An authenticator that counts the attempts at its PIN, in reach of a card. -/
structure CountingAuthenticator (card : Card σ) (size : Nat) where
  inReach : σ → Prop
  /-- How many attempts are left. -/
  left : σ → UInt8
  /-- The key pair that it agrees with now. -/
  key : σ → KeyPair
  /-- The digest of the PIN. -/
  digest : Bytes
  retries : ∀ {c}, inReach c → ∃ c', Exchanges card size (.getRetries protocol)
    (.ok { PinResponse.empty with retries := some (left c).toUInt64 }) c c' ∧ inReach c' ∧ left c' = left c
  keyAgreement : ∀ {c}, inReach c → ∃ c', Exchanges card size (.getKeyAgreement protocol)
    (.ok { PinResponse.empty with keyAgreement := some (publicKey .ecdhEsHkdf256 (key c')) }) c c' ∧ inReach c' ∧
    left c' = left c
  pinToken : ∀ {c} (host : PublicKey) {shared enc hash : Bytes}, inReach c →
    (key c).agreeCoordinates host.x.val host.y.val = .ok shared → decrypt (sessionKey shared) enc = .ok hash →
    enc.length = 16 → ∃ answer c', Exchanges card size (.getPinToken protocol host enc) answer c c' ∧ inReach c' ∧
      Verdict (hash ≠ digest) (left c) answer.isOk (left c') ∧ TokenAnswer (left c') answer

/-- Whatever key pair the host takes, it agrees with the authenticator's. -/
def CountingAuthenticator.Agrees {card : Card σ} {size : Nat} (h : CountingAuthenticator card size) (config : Config)
    (secret : Option Bytes) : Prop :=
  ∀ c made, h.inReach c → ∃ host shared, pairFrom config secret made = .ok host ∧ KeyAgreement host (h.key c) shared

/-! ## Submissions -/

section Submissions

variable {card : Card σ} {secret : Option Bytes} {s : Session σ} {before left : UInt8}

theorem hasAttempt_of_ne_zero (h : left ≠ 0) : HasAttempt left true := by
  by_cases h1 : left = 1
  · exact .inr ⟨h1, rfl⟩
  · refine .inl (UInt8.le_iff_toNat_le.mpr ?_)
    have h0 := mt UInt8.toNat_inj.mp h
    have h1 := mt UInt8.toNat_inj.mp h1
    simp only [UInt8.toNat_zero, UInt8.toNat_one] at h0 h1
    show 2 ≤ _
    omega

/-- The error of a refusal tells what is left after it, though the host has read the counter before it. -/
theorem wrongPinError_of_refusal {status : Status} (hbefore : before ≠ 0) (hcount : left.toNat = before.toNat - 1)
    (h : TokenAnswer left (.error status)) : wrongPinError before (.ofStatus status) = Attempts.refusal left := by
  have hleft : left = before - 1 := UInt8.toNat_inj.mp (hcount.trans (Attempts.toNat_pred hbefore).symm)
  have hlast : before ≤ 1 ↔ left = 0 := by
    rw [UInt8.le_iff_toNat_le, ← UInt8.toNat_inj, hcount, UInt8.toNat_zero, UInt8.toNat_one]
    omega
  cases h with
  | invalid =>
    show (if before ≤ 1 then Error.blocked else .securityStatus (some (before - 1))) = _
    unfold Attempts.refusal
    simp only [hlast, hleft]
  | blocked hnone =>
    rw [hnone]
    rfl

/-- Reading a token never tells that the PIN is blocked. -/
theorem tokenIn_ne_blocked (key : Bytes) (r : PinResponse) : tokenIn key r ≠ .error .blocked := by
  unfold tokenIn
  split
  · nofun
  · cases PinToken.decrypt key _ <;> nofun

/-- The answer to a submission is read as it was given. -/
theorem readAnswer_of_tokenAnswer {answer : Except Status PinResponse} (h : TokenAnswer left answer) :
    readAnswer (.ok (.ok (Authenticator.pinData answer))) = answer.mapError Error.ofStatus := by
  cases h with
  | token short =>
    refine readAnswer_pinData fun token htoken => ?_
    rwa [← Option.some.inj htoken]
  | invalid => exact readAnswer_refusal (by decide) (by decide)
  | blocked _ => exact readAnswer_refusal (by decide) (by decide)

/-- What the host makes of the answer to a submission. -/
theorem told_of_tokenAnswer {wrong : Prop} {answer : Except Status PinResponse} (hbefore : before ≠ 0)
    (hverdict : Verdict wrong before answer.isOk left) (h : TokenAnswer left answer) (key : Bytes) :
    Told wrong before left
      (((answer.mapError Error.ofStatus).mapError (wrongPinError before)).bind (tokenIn key)) := by
  cases answer with
  | ok response => exact .accepted hverdict (tokenIn_ne_blocked key response)
  | error status =>
    have hcount : left.toNat = before.toNat - 1 := by
      cases hverdict with
      | refused due count => exact count
    have hrefusal := wrongPinError_of_refusal hbefore hcount h
    show Told wrong before left (.error (wrongPinError before (.ofStatus status)))
    rw [hrefusal]
    exact .refused hverdict

variable (config : Config)

theorem request_of_exchanges {r : ClientPin} {answer : Except Status PinResponse} {c : σ}
    (h : Exchanges card config.chunkSize r answer s.card c)
    (hread : readAnswer (.ok (.ok (Authenticator.pinData answer))) = answer.mapError Error.ofStatus) :
    request card config r s = (answer.mapError Error.ofStatus, { s with card := c }) := by
  rw [← hread]
  exact request_of_transmit (Session.transmit_of_exchange h)

variable {config}

/-- Where no attempt is left, the counter is read and nothing is submitted. -/
theorem getPinToken_of_zero (h : CountingAuthenticator card config.chunkSize) (hs : h.inReach s.card)
    (h0 : h.left s.card = 0) (pin : Pin) :
    ∃ c, getPinToken card config secret pin true s = (.error .blocked, { s with card := c }) ∧ h.inReach c ∧
      h.left c = 0 := by
  obtain ⟨c, hretries, hc, hleft⟩ := h.retries hs
  have hrequest := request_of_exchanges config hretries (readAnswer_pinData nofun)
  rw [h0] at hrequest hleft
  exact ⟨c, Action.bind_of_error (run_checkRetries_of_zero hrequest rfl) _, hc, hleft⟩

/-- An agreement about a key costs no attempt. -/
theorem agree_of_inReach (h : CountingAuthenticator card config.chunkSize) (hkeys : h.Agrees config secret)
    (hs : h.inReach s.card) : ∃ host shared t,
      agree card config secret s = (.ok ⟨hostKey host, sessionKey shared⟩, t) ∧ h.inReach t.card ∧
      h.left t.card = h.left s.card ∧ (h.key t.card).agreeCoordinates host.x host.y = .ok shared := by
  obtain ⟨c, hagreement, hc, hleft⟩ := h.keyAgreement hs
  have hkey := request_of_exchanges config hagreement (readAnswer_pinData nofun)
  obtain ⟨host, shared, hhost, hshared⟩ := hkeys c s.keysMade hc
  refine ⟨host, shared, _, run_agree hkey rfl hhost (agreementWith_of_keyAgreement hshared), ?_⟩
  rw [Session.card_drew]
  exact ⟨hc, hleft, hshared.2⟩

/-- Where an attempt is left, the PIN is submitted. -/
theorem told_of_ne_zero (h : CountingAuthenticator card config.chunkSize) (hkeys : h.Agrees config secret)
    (hs : h.inReach s.card) (h0 : h.left s.card ≠ 0) (pin : Pin) :
    h.inReach (getPinToken card config secret pin true s).2.card ∧ Told (hashPin pin.text ≠ h.digest) (h.left s.card)
      (h.left (getPinToken card config secret pin true s).2.card) (getPinToken card config secret pin true s).1 := by
  obtain ⟨c, hretries, hc, hleft⟩ := h.retries hs
  have hcheck := run_checkRetries (request_of_exchanges config hretries (readAnswer_pinData nofun)) rfl
    (hasAttempt_of_ne_zero h0)
  obtain ⟨host, shared, t, hagree, ht, hleft', hshared⟩ := agree_of_inReach h hkeys (s := { s with card := c }) hc
  obtain ⟨enc, henc, hlength, hdec⟩ := Crypto.PinProtocol.exists_pinHashEnc shared pin.text
  obtain ⟨answer, d, htoken, hd, hverdict, hanswer⟩ := h.pinToken (hostKey host) ht hshared hdec hlength
  have hsubmit := request_of_exchanges config htoken (readAnswer_of_tokenAnswer hanswer)
  have hbefore : h.left t.card = h.left s.card := hleft'.trans hleft
  rw [hbefore] at hverdict
  rw [run_getPinToken hcheck hagree henc hsubmit]
  exact ⟨hd, told_of_tokenAnswer h0 hverdict hanswer _⟩

/-- The host tells what comes of a submission. -/
theorem told_getPinToken (h : CountingAuthenticator card config.chunkSize) (hkeys : h.Agrees config secret)
    (hs : h.inReach s.card) (pin : Pin) :
    h.inReach (getPinToken card config secret pin true s).2.card ∧ Told (hashPin pin.text ≠ h.digest) (h.left s.card)
      (h.left (getPinToken card config secret pin true s).2.card) (getPinToken card config secret pin true s).1 := by
  by_cases h0 : h.left s.card = 0
  · obtain ⟨c, hrun, hc, hleft⟩ := getPinToken_of_zero h hs h0 pin
    rw [hrun, h0]
    refine ⟨hc, ?_⟩
    show Told _ 0 (h.left c) _
    rw [hleft]
    exact .of_none
  · exact told_of_ne_zero h hkeys hs h0 pin

variable (secret config) in
/-- Submissions to an authenticator, with consent to use the last attempt. -/
def submissions (h : CountingAuthenticator card config.chunkSize) : Counters (Session σ) Pin Unit PinToken where
  step pin := getPinToken card config secret pin true
  submits _ _ := some ()
  Wrong pin := hashPin pin.text ≠ h.digest
  left s _ := h.left s.card

theorem tells_submissions (h : CountingAuthenticator card config.chunkSize) (hkeys : h.Agrees config secret) :
    (submissions secret config h).Tells fun s => h.inReach s.card where
  keeps pin hs := (told_getPinToken h hkeys hs pin).1
  submission hs _ := (told_getPinToken h hkeys hs _).2
  others _ hp := absurd rfl hp

end Submissions

/-! ## Simulated authenticators -/

section Simulated

/-- An authenticator with a PIN and a key pair, and a token that can be encrypted. -/
structure Prepared (stored : String) (device : KeyPair) (a : Authenticator) : Prop extends KnowsPins a where
  pin : a.pin = some stored
  agreementKey : a.agreementKey = device
  blocks : a.token.length % 16 = 0
  short : a.token.length < 2 ^ 64

/-- The attempts that are left at the PIN of the authenticator on a card. -/
def retriesOn (c : Simulated.Card) : UInt8 := (c.authenticator.map (·.retries)).getD 0

variable {c : Simulated.Card} {a a' : Authenticator} {heard : List Bytes} {stored : String} {device : KeyPair}

theorem retriesOn_of_holds (h : c.Holds a heard) : retriesOn c = a.retries := by
  rw [retriesOn, h.authenticator]
  rfl

/-- A PIN request is answered by the authenticator on the card. -/
theorem exchanges_of_holds {r : ClientPin} {answer : Except Status PinResponse} (h : c.Holds a heard)
    (ha : KnowsPins a) (hr : r.Bounded 64) (hrun : Authenticator.clientPin r.toValue a = (answer, a')) (size : Nat) :
    ∃ c', Exchanges Simulated.Card.card size r answer c c' ∧ c'.Holds a' (heard ++ [r.toBytes]) := by
  obtain ⟨c', htransmit, hc'⟩ := Simulated.Card.transmit_holding h ha.ctap2 r.toBytes size
  rw [Authenticator.process_pinRequest ha.ctap2 hr (by decide), hrun] at htransmit hc'
  exact ⟨c', htransmit, hc'⟩

/-- What a prepared authenticator makes of a submission. -/
theorem giveToken_of_prepared {r : ClientPin} {host : PublicKey} {shared enc hash : Bytes}
    (ha : Prepared stored device a) (hkey : r.keyAgreement = some host) (henc : r.pinHashEnc = some enc)
    (hshared : device.agreeCoordinates host.x.val host.y.val = .ok shared)
    (hhash : decrypt (sessionKey shared) enc = .ok hash) :
    ∃ answer a', Authenticator.giveToken (.ofRecord r.fields) a = (answer, a') ∧ Prepared stored device a' ∧
      Verdict (hash ≠ hashPin stored) a.retries answer.isOk a'.retries ∧ TokenAnswer a'.retries answer := by
  rw [← ha.agreementKey] at hshared
  have hsession := Authenticator.run_sessionKey hkey hshared
  by_cases h0 : a.retries = 0
  · refine ⟨_, _, Authenticator.run_giveToken_of_zero h0 hsession henc, ha, ?_, .blocked h0⟩
    rw [h0]
    exact .of_zero
  · by_cases hright : hash = hashPin stored
    · obtain ⟨token, htoken, hlength, -⟩ := Crypto.PinProtocol.exists_encrypt shared ha.blocks
      rw [hright] at hhash
      refine ⟨_, _, Authenticator.run_giveToken h0 ha.pin hsession henc hhash htoken, ?_, ?_, ?_⟩
      · exact ⟨⟨ha.ctap2, ha.pinSupported⟩, ha.pin, ha.agreementKey, ha.blocks, ha.short⟩
      · exact .accepted h0 (not_not_intro hright)
      · exact .token (hlength ▸ ha.short)
    · refine ⟨_, _, Authenticator.run_giveToken_of_ne h0 ha.pin hsession henc hhash hright, ?_, ?_, ?_⟩
      · exact ⟨⟨ha.ctap2, ha.pinSupported⟩, ha.pin, ha.agreementKey, ha.blocks, ha.short⟩
      · exact .of_wrong h0 hright
      · show TokenAnswer (a.retries - 1) (.error (if a.retries - 1 = 0 then .pinBlocked else .pinInvalid))
        split
        · exact .blocked ‹_›
        · exact .invalid

variable (stored device) in
/-- The authenticator on a simulated card counts the attempts at its PIN. -/
def countingSimulated (size : Nat) : CountingAuthenticator Simulated.Card.card size where
  inReach c := ∃ a heard, c.Holds a heard ∧ Prepared stored device a
  left := retriesOn
  key _ := device
  digest := hashPin stored
  retries := by
    rintro c ⟨a, heard, hc, ha⟩
    obtain ⟨c', hexchange, hc'⟩ := exchanges_of_holds hc ha.toKnowsPins (bounded_getRetries 64)
      (Authenticator.run_clientPin ha.pinSupported _) size
    have hleft : retriesOn c = a.retries := retriesOn_of_holds hc
    rw [hleft]
    exact ⟨c', hexchange, ⟨a, _, hc', ha⟩, retriesOn_of_holds hc'⟩
  keyAgreement := by
    rintro c ⟨a, heard, hc, ha⟩
    obtain ⟨c', hexchange, hc'⟩ := exchanges_of_holds hc ha.toKnowsPins (bounded_getKeyAgreement 64)
      (Authenticator.run_clientPin ha.pinSupported _) size
    rw [ha.agreementKey] at hexchange
    exact ⟨c', hexchange, ⟨a, _, hc', ha⟩, (retriesOn_of_holds hc').trans (retriesOn_of_holds hc).symm⟩
  pinToken := by
    rintro c host shared enc hash ⟨a, heard, hc, ha⟩ hshared hhash hlength
    obtain ⟨answer, a', hrun, ha', hverdict, hanswer⟩ := giveToken_of_prepared
      (r := .getPinToken protocol host enc) ha rfl rfl hshared hhash
    obtain ⟨c', hexchange, hc'⟩ := exchanges_of_holds hc ha.toKnowsPins (bounded_getPinToken (Nat.le_of_eq hlength))
      ((Authenticator.run_clientPin ha.pinSupported _).trans hrun) size
    rw [← retriesOn_of_holds hc, ← retriesOn_of_holds hc'] at hverdict
    rw [← retriesOn_of_holds hc'] at hanswer
    exact ⟨answer, c', hexchange, ⟨a', _, hc', ha'⟩, hverdict, hanswer⟩

end Simulated

end SecurityKey.Fido.Pin
