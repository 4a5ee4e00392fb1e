import SecurityKey.Proofs.Fido.PinExchange

/-!
# Host and authenticator agree about PINs

With an authenticator that follows the first PIN protocol, and whose key pair agrees with the host's:

- the PIN is exchanged for the authenticator's own token (`getPinToken_answered`);
- a message that sets a PIN has a right code and the padded PIN in it (`setPin_answered`, `changePin_answered`).

`pinProtocol_agrees` has all of it.
-/

namespace SecurityKey.Fido.Pin

open Crypto (KeyPair PinToken)
open Crypto.PinProtocol (authenticate decrypt hashPin padPin)
open Ctap (ClientPin PinResponse)
open Simulated (Authenticator)

variable {σ : Type} {card : Card σ} {config : Config} {shows : σ → Authenticator → List Bytes → Prop} {s : Session σ}
  {a : Authenticator} {heard : List Bytes} {secret : Option Bytes} {lastAttemptOk : Bool} {host : KeyPair}
  {shared : Bytes} {r : ClientPin}

/-- What an authenticator gets out of a message that sets a PIN: the code is right, and the PIN comes out with zeros
behind it, which fill up 64 bytes. -/
def Gets (a : Authenticator) (message : Bytes) (pin : String) : Prop :=
  ∃ fields key newPinEnc pinAuth, (Cbor.decode message.tail >>= Cbor.Fields.ofValue) = .ok fields ∧
    Authenticator.sessionKey fields a = (.ok key, a) ∧
    Authenticator.bytes? fields 5 = some newPinEnc ∧ Authenticator.bytes? fields 4 = some pinAuth ∧
    Authenticator.checkCode key (newPinEnc ++ (Authenticator.bytes? fields 6).getD []) pinAuth a = (.ok (), a) ∧
    Simulated.PinProtocol.decrypt? key newPinEnc =
      some (Bytes.ofString pin ++ List.replicate (64 - (Bytes.ofString pin).length) 0)

/-- The key that an authenticator finds in the host's requests. -/
theorem sessionKey_hostKey (hshared : KeyAgreement host a.agreementKey shared)
    (hkey : r.keyAgreement = some (hostKey host)) :
    Authenticator.sessionKey (.ofRecord r.fields) a = (.ok (Crypto.PinProtocol.sessionKey shared), a) :=
  Authenticator.run_sessionKey hkey hshared.2

theorem decode_toBytes (hr : r.Bounded 64) :
    (Cbor.decode r.toBytes.tail >>= Cbor.Fields.ofValue) = .ok (.ofRecord r.fields) := by
  have hdecode : Cbor.decode r.toValue.encode = .ok r.toValue :=
    ((ClientPin.stable_toValue hr (by decide)).mono (by decide)).decode
  show (Cbor.decode r.toValue.encode >>= Cbor.Fields.ofValue) = _
  rw [hdecode]
  exact r.ofValue_toValue

/-- A right code comes with a new PIN. -/
theorem gets_toBytes {key newEnc : Bytes} {pin : String} (hr : r.Bounded 64)
    (hkey : Authenticator.sessionKey (.ofRecord r.fields) a = (.ok key, a)) (hnew : r.newPinEnc = some newEnc)
    (hcode : r.pinAuth = some (authenticate key (newEnc ++ r.pinHashEnc.getD [])))
    (hlength : (Bytes.ofString pin).length ≤ 63) (hdec : decrypt key newEnc = padPin pin) : Gets a r.toBytes pin := by
  obtain ⟨h4, h5, h6⟩ := Authenticator.bytes?_fields r
  refine ⟨_, key, newEnc, _, decode_toBytes hr, hkey, h5.trans hnew, h4.trans hcode, ?_, ?_⟩
  · rw [h6]
    exact Authenticator.run_checkCode ..
  · rw [Simulated.PinProtocol.decrypt?_eq, hdec, Crypto.PinProtocol.padPin_eq hlength]
    rfl

/-! ## The token -/

theorem bounded_getPinToken {key : Credential.PublicKey} {hashEnc : Bytes} (h : hashEnc.length ≤ 16) :
    (ClientPin.getPinToken protocol key hashEnc).Bounded 64 := by
  refine ⟨nofun, nofun, ?_⟩
  intro b hb
  cases hb
  omega

/-- A submitted PIN is compared by its digest. Where it is the stored one's, the host gets the token. -/
theorem getPinToken_answered (hreach : InReach card config.chunkSize shows) (h : shows s.card a heard)
    (ha : KnowsPins a) (hhost : pairFrom config secret s.keysMade = .ok host)
    (hshared : KeyAgreement host a.agreementKey shared) {pin : Pin} {stored : String} (hpin : a.pin = some stored)
    (hhashes : hashPin pin.text = hashPin stored) (hretries : HasAttempt a.retries lastAttemptOk)
    (hblocks : a.token.length % 16 = 0) (hlength : a.token.length < 2 ^ 64) :
    ∃ t heard', getPinToken card config secret pin lastAttemptOk s = (.ok (.ofBytes a.token), t) ∧
      shows t.card { a with retries := Simulated.maxRetries } heard' := by
  obtain ⟨c, hcheck, hc⟩ := checkRetries_answered hreach h ha hretries
  obtain ⟨t, hagree, ht⟩ := agree_answered (s := { s with card := c }) hreach hc ha hhost hshared
  obtain ⟨hashEnc, henc, hhashLength, hhash⟩ := Crypto.PinProtocol.exists_pinHashEnc shared pin.text
  obtain ⟨tokenEnc, htoken, htokenLength, hdec⟩ := Crypto.PinProtocol.exists_encrypt shared hblocks
  rw [hhashes] at hhash
  have hgive := Authenticator.run_giveToken (r := .getPinToken protocol (hostKey host) hashEnc) hretries.ne_zero hpin
    (sessionKey_hostKey hshared rfl) rfl hhash htoken
  have hshort : ∀ token, some tokenEnc = some token → token.length < 2 ^ 64 := by
    intro token htoken
    cases htoken
    omega
  obtain ⟨d, hrequest, hd⟩ := request_answered hreach ht ha (bounded_getPinToken (Nat.le_of_eq hhashLength))
    ((Authenticator.run_clientPin ha.pinSupported _).trans hgive) hshort
  have hread : tokenIn (Crypto.PinProtocol.sessionKey shared) { PinResponse.empty with pinToken := some tokenEnc } =
      .ok (.ofBytes a.token) := by
    simp only [tokenIn, PinToken.decrypt, hdec]
    rfl
  have hget := run_getPinToken hcheck hagree henc hrequest
  exact ⟨_, _, hget.trans (congrArg (·, _) hread), hd⟩

/-- A PIN with another digest than the stored one's is refused. -/
theorem getPinToken_refused (hreach : InReach card config.chunkSize shows) (h : shows s.card a heard)
    (ha : KnowsPins a) (hhost : pairFrom config secret s.keysMade = .ok host)
    (hshared : KeyAgreement host a.agreementKey shared) {pin : Pin} {stored : String} (hpin : a.pin = some stored)
    (hhashes : hashPin pin.text ≠ hashPin stored) (hretries : HasAttempt a.retries lastAttemptOk) :
    ∃ e t heard', getPinToken card config secret pin lastAttemptOk s = (.error e, t) ∧
      shows t.card { a with retries := a.retries - 1 } heard' := by
  obtain ⟨c, hcheck, hc⟩ := checkRetries_answered hreach h ha hretries
  obtain ⟨t, hagree, ht⟩ := agree_answered (s := { s with card := c }) hreach hc ha hhost hshared
  obtain ⟨hashEnc, henc, hhashLength, hhash⟩ := Crypto.PinProtocol.exists_pinHashEnc shared pin.text
  have hrefuse := Authenticator.run_giveToken_of_ne (r := .getPinToken protocol (hostKey host) hashEnc)
    hretries.ne_zero hpin (sessionKey_hostKey hshared rfl) rfl hhash hhashes
  have hstatus : ∀ n : UInt8, let status := if n = 0 then Ctap.Status.pinBlocked else .pinInvalid
      Ctap.Status.ofByte status.toByte = status ∧ status ≠ .success := by
    intro n
    by_cases hn : n = 0
    · simp only [hn, if_true]
      decide
    · simp only [hn, if_false]
      decide
  obtain ⟨d, hrequest, hd⟩ := request_refused hreach ht ha (bounded_getPinToken (Nat.le_of_eq hhashLength))
    ((Authenticator.run_clientPin ha.pinSupported _).trans hrefuse) (hstatus _).1 (hstatus _).2
  exact ⟨_, _, _, run_getPinToken hcheck hagree henc hrequest, hd⟩

/-- A code under the token is right, whatever is signed. -/
theorem checkPinAuth_authenticate {pin : String} (hpin : a.pin = some pin) (clientDataHash : Bytes) :
    Authenticator.checkPinAuth (some ((PinToken.ofBytes a.token).authenticate clientDataHash)) clientDataHash a =
      (.ok true, a) := by
  have hcode : Authenticator.checkCode a.token clientDataHash
      ((PinToken.ofBytes a.token).authenticate clientDataHash) a = (.ok (), a) :=
    Authenticator.run_checkCode ..
  unfold Authenticator.checkPinAuth
  simp only [Action.run_bind, Action.run_get, hpin, Option.isNone_some, Bool.false_eq_true, if_false, hcode,
    Action.run_pure]

/-! ## New PINs -/

theorem bounded_setPin {key newEnc : Bytes} (h : newEnc.length ≤ 64) :
    (ClientPin.setPin protocol (hostKey host) newEnc (authenticate key newEnc)).Bounded 64 := by
  have hcode := Crypto.PinProtocol.length_authenticate key newEnc
  refine ⟨?_, ?_, nofun⟩
  · intro b hb
    cases hb
    omega
  · intro b hb
    cases hb
    exact h

theorem bounded_changePin {key newEnc hashEnc : Bytes} (hnew : newEnc.length ≤ 64) (hhash : hashEnc.length ≤ 16) :
    (ClientPin.changePin protocol (hostKey host) newEnc hashEnc (authenticate key (newEnc ++ hashEnc))).Bounded 64 := by
  have hcode := Crypto.PinProtocol.length_authenticate key (newEnc ++ hashEnc)
  constructor
  · intro b hb
    cases hb
    omega
  · intro b hb
    cases hb
    exact hnew
  · intro b hb
    cases hb
    omega

/-- The first PIN is stored up to its first zero. -/
theorem setPin_answered (hreach : InReach card config.chunkSize shows) (h : shows s.card a heard) (ha : KnowsPins a)
    (hhost : pairFrom config secret s.keysMade = .ok host) (hshared : KeyAgreement host a.agreementKey shared)
    {newPin : Pin} (hpin : a.pin = none) (hpolicy : checkPolicy newPin = .ok ()) :
    ∃ t message, setPin card config secret newPin s = (.ok (), t) ∧
      shows t.card { a with pin := some (beforeZero newPin.text) }
        (heard ++ [(ClientPin.getKeyAgreement protocol).toBytes, message]) ∧ Gets a message newPin.text := by
  have hlength := length_le_of_checkPolicy hpolicy
  obtain ⟨t, hagree, ht⟩ := agree_answered hreach h ha hhost hshared
  obtain ⟨newEnc, hnew, hnewLength, hdec⟩ := Crypto.PinProtocol.exists_newPinEnc shared hlength
  let key := Crypto.PinProtocol.sessionKey shared
  let r := ClientPin.setPin protocol (hostKey host) newEnc (authenticate key newEnc)
  have hkey : Authenticator.sessionKey (.ofRecord r.fields) a = (.ok key, a) := sessionKey_hostKey hshared rfl
  have hbounded : r.Bounded 64 := bounded_setPin (Nat.le_of_eq hnewLength)
  have hset := Authenticator.run_setPin (r := r) hpin hkey rfl rfl (Authenticator.newPin_eq hlength hdec)
  obtain ⟨c, hrequest, hc⟩ := request_answered hreach ht ha hbounded
    ((Authenticator.run_clientPin ha.pinSupported _).trans hset) nofun
  refine ⟨_, r.toBytes, run_setPin hpolicy hagree hnew hrequest, ?_, ?_⟩
  · rwa [List.append_assoc] at hc
  · refine gets_toBytes hbounded hkey rfl ?_ hlength hdec
    show some _ = some (authenticate key (newEnc ++ []))
    rw [List.append_nil]

/-- Where there is a PIN, no other is set in its place. -/
theorem setPin_refused (hreach : InReach card config.chunkSize shows) (h : shows s.card a heard) (ha : KnowsPins a)
    (hhost : pairFrom config secret s.keysMade = .ok host) (hshared : KeyAgreement host a.agreementKey shared)
    {newPin : Pin} {current : String} (hpin : a.pin = some current) :
    ∃ e t, setPin card config secret newPin s = (.error e, t) := by
  unfold setPin
  cases hpolicy : checkPolicy newPin with
  | error e => exact ⟨e, s, Action.bind_of_error rfl _⟩
  | ok _ =>
    have hlength := length_le_of_checkPolicy hpolicy
    obtain ⟨t, hagree, ht⟩ := agree_answered hreach h ha hhost hshared
    obtain ⟨newEnc, hnew, hnewLength, -⟩ := Crypto.PinProtocol.exists_newPinEnc shared hlength
    let r := ClientPin.setPin protocol (hostKey host) newEnc
      (authenticate (Crypto.PinProtocol.sessionKey shared) newEnc)
    obtain ⟨c, hrequest, -⟩ := request_refused (r := r) hreach ht ha (bounded_setPin (Nat.le_of_eq hnewLength))
      ((Authenticator.run_clientPin ha.pinSupported _).trans (Authenticator.run_setPin_of_some hpin)) rfl (by decide)
    rw [Action.bind_of_ok (Action.run_ofExcept_ok ..), Action.bind_of_ok hagree, hnew,
      Action.bind_of_ok (Action.run_ofExcept_ok ..)]
    exact ⟨_, _, Action.bind_of_error hrequest _⟩

/-- Another PIN is stored up to its first zero. -/
theorem changePin_answered (hreach : InReach card config.chunkSize shows) (h : shows s.card a heard)
    (ha : KnowsPins a) (hhost : pairFrom config secret s.keysMade = .ok host)
    (hshared : KeyAgreement host a.agreementKey shared) {current newPin : Pin} (hpin : a.pin = some current.text)
    (hretries : HasAttempt a.retries lastAttemptOk) (hpolicy : checkPolicy newPin = .ok ()) :
    ∃ t message, changePin card config secret current newPin lastAttemptOk s = (.ok (), t) ∧
      shows t.card { a with pin := some (beforeZero newPin.text), retries := Simulated.maxRetries }
        (heard ++ [(ClientPin.getRetries protocol).toBytes, (ClientPin.getKeyAgreement protocol).toBytes, message]) ∧
      Gets a message newPin.text := by
  have hlength := length_le_of_checkPolicy hpolicy
  obtain ⟨c, hcheck, hc⟩ := checkRetries_answered hreach h ha hretries
  obtain ⟨t, hagree, ht⟩ := agree_answered (s := { s with card := c }) hreach hc ha hhost hshared
  obtain ⟨newEnc, hnew, hnewLength, hdec⟩ := Crypto.PinProtocol.exists_newPinEnc shared hlength
  obtain ⟨hashEnc, henc, hhashLength, hhash⟩ := Crypto.PinProtocol.exists_pinHashEnc shared current.text
  let key := Crypto.PinProtocol.sessionKey shared
  let code := authenticate key (newEnc ++ hashEnc)
  let r := ClientPin.changePin protocol (hostKey host) newEnc hashEnc code
  have hkey : Authenticator.sessionKey (.ofRecord r.fields) a = (.ok key, a) := sessionKey_hostKey hshared rfl
  have hbounded : r.Bounded 64 := bounded_changePin (Nat.le_of_eq hnewLength) (Nat.le_of_eq hhashLength)
  have hchange := Authenticator.run_changePin (r := r) hretries.ne_zero hpin hkey rfl rfl
    (Authenticator.newPin_eq hlength hdec) rfl hhash
  obtain ⟨d, hrequest, hd⟩ := request_answered (s := t.clearPinToken) hreach ht ha hbounded
    ((Authenticator.run_clientPin ha.pinSupported _).trans hchange) nofun
  refine ⟨_, r.toBytes, run_changePin hpolicy hcheck hagree hnew henc hrequest, ?_, ?_⟩
  · rwa [List.append_assoc, List.append_assoc] at hd
  · exact gets_toBytes hbounded hkey rfl rfl hlength hdec

/-! ## Agreement -/

/-- Against an authenticator that follows the first PIN protocol, and shares a point with the host, the host gets the
authenticator's token for its PIN, and codes under the token are right; of a message that sets a PIN, the
authenticator finds the code right and gets the padded PIN. -/
theorem pinProtocol_agrees {card : Card σ} {config : Config} {shows : σ → Authenticator → List Bytes → Prop}
    (hreach : InReach card config.chunkSize shows) {s : Session σ} {a : Authenticator} {heard : List Bytes}
    (h : shows s.card a heard) (ha : KnowsPins a) {secret : Option Bytes} {host : KeyPair} {p : Crypto.P256.Point}
    (hhost : pairFrom config secret s.keysMade = .ok host) (hshared : SharedPoint host a.agreementKey p) :
    (∀ (pin : Pin) (lastAttemptOk : Bool), a.pin = some pin.text → HasAttempt a.retries lastAttemptOk →
      a.token.length % 16 = 0 → a.token.length < 2 ^ 64 →
      ∃ t a' heard', getPinToken card config secret pin lastAttemptOk s = (.ok (.ofBytes a.token), t) ∧
        shows t.card a' heard' ∧ ∀ clientDataHash, Authenticator.checkPinAuth
          (some ((PinToken.ofBytes a.token).authenticate clientDataHash)) clientDataHash a' = (.ok true, a')) ∧
    (∀ newPin : Pin, a.pin = none → checkPolicy newPin = .ok () →
      ∃ t a' message, setPin card config secret newPin s = (.ok (), t) ∧
        shows t.card a' (heard ++ [(ClientPin.getKeyAgreement protocol).toBytes, message]) ∧
        Gets a message newPin.text) ∧
    ∀ (current newPin : Pin) (lastAttemptOk : Bool), a.pin = some current.text →
      HasAttempt a.retries lastAttemptOk → checkPolicy newPin = .ok () →
      ∃ t a' message, changePin card config secret current newPin lastAttemptOk s = (.ok (), t) ∧
        shows t.card a' (heard ++
          [(ClientPin.getRetries protocol).toBytes, (ClientPin.getKeyAgreement protocol).toBytes, message]) ∧
        Gets a message newPin.text := by
  have hagreement := hshared.keyAgreement
  refine ⟨?_, ?_, ?_⟩
  · intro pin lastAttemptOk hpin hretries hblocks hlength
    obtain ⟨t, heard', hget, ht⟩ := getPinToken_answered hreach h ha hhost hagreement hpin rfl hretries hblocks
      hlength
    exact ⟨t, _, heard', hget, ht, fun hash =>
      checkPinAuth_authenticate (a := { a with retries := Simulated.maxRetries }) hpin hash⟩
  · intro newPin hpin hpolicy
    obtain ⟨t, message, hset, ht, hgets⟩ := setPin_answered hreach h ha hhost hagreement hpin hpolicy
    exact ⟨t, _, message, hset, ht, hgets⟩
  · intro current newPin lastAttemptOk hpin hretries hpolicy
    obtain ⟨t, message, hchange, ht, hgets⟩ := changePin_answered hreach h ha hhost hagreement hpin hretries hpolicy
    exact ⟨t, _, message, hchange, ht, hgets⟩

/-- A new authenticator, without a PIN and with one. -/
theorem pinProtocol_agrees_new :
    (∃ t message, setPin Simulated.Card.card fixedKeys (some hostSecret) ⟨"1234"⟩ (sessionWith .new) = (.ok (), t) ∧
      Gets .new message "1234") ∧
    (∃ t, getPinToken Simulated.Card.card fixedKeys (some hostSecret) ⟨"1234"⟩ false (sessionWith withDigits) =
      (.ok (.ofBytes Authenticator.firstToken), t)) ∧
    ∃ t message, changePin Simulated.Card.card fixedKeys (some hostSecret) ⟨"1234"⟩ ⟨"5678"⟩ false
      (sessionWith withDigits) = (.ok (), t) ∧ Gets withDigits message "5678" := by
  obtain ⟨host, p, hhost, hshared⟩ := exists_sharedPoint
  have hfrom : pairFrom fixedKeys (some hostSecret) 0 = .ok host := hhost
  have hreach := inReach_card fixedKeys.chunkSize
  have hattempt : HasAttempt Authenticator.new.retries false := .inl (by decide)
  have hfirst : checkPolicy ⟨"1234"⟩ = .ok () := Action.eq_ok_of_toOption (by decide +kernel)
  have hsecond : checkPolicy ⟨"5678"⟩ = .ok () := Action.eq_ok_of_toOption (by decide +kernel)
  have hnew := pinProtocol_agrees hreach (holds_sessionWith .new) ⟨rfl, rfl⟩ hfrom hshared
  have hdigits := pinProtocol_agrees hreach (holds_sessionWith withDigits) ⟨rfl, rfl⟩ hfrom hshared
  refine ⟨?_, ?_, ?_⟩
  · obtain ⟨t, -, message, hset, -, hgets⟩ := hnew.2.1 ⟨"1234"⟩ rfl hfirst
    exact ⟨t, message, hset, hgets⟩
  · obtain ⟨t, -, -, hget, -⟩ := hdigits.1 ⟨"1234"⟩ false rfl hattempt (by decide) (by decide)
    exact ⟨t, hget⟩
  · obtain ⟨t, -, message, hchange, -, hgets⟩ := hdigits.2.2 ⟨"1234"⟩ ⟨"5678"⟩ false rfl hattempt hsecond
    exact ⟨t, message, hchange, hgets⟩

end SecurityKey.Fido.Pin
