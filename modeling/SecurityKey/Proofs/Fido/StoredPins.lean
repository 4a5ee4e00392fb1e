import SecurityKey.Proofs.Fido.PinAgreement

/-!
# PINs that were set

An authenticator stores a PIN up to its first zero, and the host submits the digest of all of it. So a PIN that was set
gives the token exactly when both have one digest (`usable_iff`), as a PIN without a zero has. A PIN with a zero in it
may be set and not be usable (`not_usable_with_zero`).
-/

namespace SecurityKey.Fido.Pin

open Crypto (KeyPair)
open Crypto.PinProtocol (hashPin)
open Simulated (Authenticator)

variable {σ : Type} {card : Card σ} {config : Config} {shows : σ → Authenticator → List Bytes → Prop} {s : Session σ}
  {a : Authenticator} {heard : List Bytes} {secret : Option Bytes} {lastAttemptOk : Bool}

/-- Every key pair that the host takes agrees with the authenticator's. -/
def KeysAgree (config : Config) (secret : Option Bytes) (a : Authenticator) : Prop :=
  ∀ made, ∃ host shared, pairFrom config secret made = .ok host ∧ KeyAgreement host a.agreementKey shared

theorem isOk_getPinToken_iff (hreach : InReach card config.chunkSize shows) (h : shows s.card a heard)
    (ha : KnowsPins a) (hkeys : KeysAgree config secret a) {pin : Pin} {stored : String} (hpin : a.pin = some stored)
    (hretries : HasAttempt a.retries lastAttemptOk) (hblocks : a.token.length % 16 = 0)
    (hlength : a.token.length < 2 ^ 64) :
    (getPinToken card config secret pin lastAttemptOk s).1.isOk = true ↔ hashPin pin.text = hashPin stored := by
  obtain ⟨host, shared, hhost, hshared⟩ := hkeys s.keysMade
  by_cases hhashes : hashPin pin.text = hashPin stored
  · obtain ⟨t, -, hget, -⟩ :=
      getPinToken_answered hreach h ha hhost hshared hpin hhashes hretries hblocks hlength
    rw [hget]
    exact ⟨fun _ => hhashes, fun _ => rfl⟩
  · obtain ⟨e, t, -, hget, -⟩ := getPinToken_refused hreach h ha hhost hshared hpin hhashes hretries
    rw [hget]
    exact ⟨nofun, fun h => absurd h hhashes⟩

/-- A PIN can be set exactly where there is none, if the policy allows it. -/
theorem setPin_eq_ok_iff (hreach : InReach card config.chunkSize shows) (h : shows s.card a heard) (ha : KnowsPins a)
    (hkeys : KeysAgree config secret a) {newPin : Pin} :
    (∃ t, setPin card config secret newPin s = (.ok (), t)) ↔ a.pin = none ∧ checkPolicy newPin = .ok () := by
  obtain ⟨host, shared, hhost, hshared⟩ := hkeys s.keysMade
  constructor
  · rintro ⟨t, hset⟩
    have hpolicy : checkPolicy newPin = .ok () := by
      cases hp : checkPolicy newPin with
      | ok _ => rfl
      | error e =>
        unfold setPin at hset
        rw [hp] at hset
        cases hset
    refine ⟨?_, hpolicy⟩
    cases hpin : a.pin with
    | none => rfl
    | some current =>
      have hrefuses : ∃ e u, setPin card config secret newPin s = (.error e, u) :=
        setPin_refused hreach h ha hhost hshared hpin
      obtain ⟨e, u, hrefused⟩ := hrefuses
      rw [hset] at hrefused
      cases hrefused
  · rintro ⟨hpin, hpolicy⟩
    obtain ⟨t, message, hset, -⟩ := setPin_answered hreach h ha hhost hshared hpin hpolicy
    exact ⟨t, hset⟩

/-- A PIN that was set, or changed to, gives the token exactly when the digest of what comes before its first zero is
the digest of all of it. Where there is no zero, it is. -/
theorem usable_iff (hreach : InReach card config.chunkSize shows) (h : shows s.card a heard) (ha : KnowsPins a)
    (hkeys : KeysAgree config secret a) (hretries : HasAttempt a.retries lastAttemptOk)
    (hblocks : a.token.length % 16 = 0) (hlength : a.token.length < 2 ^ 64) {newPin : Pin}
    (hpolicy : checkPolicy newPin = .ok ()) :
    (a.pin = none → ∃ t, setPin card config secret newPin s = (.ok (), t) ∧
      ((getPinToken card config secret newPin lastAttemptOk t).1.isOk = true ↔
        hashPin newPin.text = hashPin (beforeZero newPin.text))) ∧
    (∀ current : Pin, a.pin = some current.text →
      ∃ t, changePin card config secret current newPin lastAttemptOk s = (.ok (), t) ∧
        ((getPinToken card config secret newPin lastAttemptOk t).1.isOk = true ↔
          hashPin newPin.text = hashPin (beforeZero newPin.text))) ∧
    ((∀ c ∈ newPin.text.toList, c.toNat ≠ 0) → hashPin newPin.text = hashPin (beforeZero newPin.text)) := by
  obtain ⟨host, shared, hhost, hshared⟩ := hkeys s.keysMade
  refine ⟨?_, ?_, ?_⟩
  · intro hpin
    obtain ⟨t, message, hset, ht, -⟩ := setPin_answered hreach h ha hhost hshared hpin hpolicy
    exact ⟨t, hset, isOk_getPinToken_iff hreach ht ⟨ha.ctap2, ha.pinSupported⟩ hkeys rfl hretries hblocks hlength⟩
  · intro current hpin
    obtain ⟨t, message, hchange, ht, -⟩ := changePin_answered hreach h ha hhost hshared hpin hretries hpolicy
    have hagain : HasAttempt Simulated.maxRetries lastAttemptOk := .inl (by decide)
    exact ⟨t, hchange, isOk_getPinToken_iff hreach ht ⟨ha.ctap2, ha.pinSupported⟩ hkeys rfl hagain hblocks hlength⟩
  · intro hzero
    rw [beforeZero_eq_self hzero]

theorem keysAgree_new : KeysAgree fixedKeys (some hostSecret) .new := by
  intro made
  obtain ⟨host, shared, hhost, hshared⟩ := exists_keyAgreement
  exact ⟨host, shared, hhost, hshared⟩

theorem usable_iff_digits : ∃ t,
    setPin Simulated.Card.card fixedKeys (some hostSecret) ⟨"1234"⟩ (sessionWith .new) = (.ok (), t) ∧
      (getPinToken Simulated.Card.card fixedKeys (some hostSecret) ⟨"1234"⟩ false t).1.isOk = true := by
  have hpolicy : checkPolicy ⟨"1234"⟩ = .ok () := Action.eq_ok_of_toOption (by decide +kernel)
  obtain ⟨hset, -, hzero⟩ := usable_iff (inReach_card fixedKeys.chunkSize)
    (holds_sessionWith .new) ⟨rfl, rfl⟩ keysAgree_new (.inl (by decide)) (by decide) (by decide) hpolicy
  obtain ⟨t, hrun, hiff⟩ := hset rfl
  have hdigits : "1234".toList.all (·.toNat ≠ 0) = true := by decide +kernel
  exact ⟨t, hrun, hiff.mpr (hzero fun c hc => of_decide_eq_true (List.all_eq_true.mp hdigits c hc))⟩

/-- A PIN with a zero in it passes the policy and is set; then it is refused, with all attempts left. -/
theorem not_usable_with_zero : checkPolicy ⟨"12\x0034"⟩ = .ok () ∧ ∃ t,
    setPin Simulated.Card.card fixedKeys (some hostSecret) ⟨"12\x0034"⟩ (sessionWith .new) = (.ok (), t) ∧
      (getPinToken Simulated.Card.card fixedKeys (some hostSecret) ⟨"12\x0034"⟩ false t).1.isOk = false := by
  have hpolicy : checkPolicy ⟨"12\x0034"⟩ = .ok () := Action.eq_ok_of_toOption (by decide +kernel)
  have hne : hashPin "12\x0034" ≠ hashPin (beforeZero "12\x0034") := by decide +kernel
  obtain ⟨host, shared, hhost, hshared⟩ := keysAgree_new 0
  obtain ⟨t, message, hset, ht, -⟩ := setPin_answered (inReach_card fixedKeys.chunkSize)
    (holds_sessionWith .new) ⟨rfl, rfl⟩ hhost hshared rfl hpolicy
  have hiff : (getPinToken Simulated.Card.card fixedKeys (some hostSecret) ⟨"12\x0034"⟩ false t).1.isOk = true ↔
      hashPin "12\x0034" = hashPin (beforeZero "12\x0034") :=
    isOk_getPinToken_iff (inReach_card fixedKeys.chunkSize) ht ⟨rfl, rfl⟩ keysAgree_new rfl (.inl (by decide))
      (by decide) (by decide)
  refine ⟨hpolicy, t, hset, ?_⟩
  exact Bool.eq_false_iff.mpr fun hok => hne (hiff.mp hok)

end SecurityKey.Fido.Pin
