import SecurityKey.Proofs.Fido.RejectedTokens
import SecurityKey.Proofs.Fido.StoredPins

/-!
# PINs set on a connection

How a command is authorised is decided by what the authenticator told about itself when it was connected. Setting a PIN
does not change that.

- `Continues`: the sessions that a connection comes to while it lasts. What was told stays known, and where no PIN was
  told of, no token comes (`Continues.steady`);
- so with no token a command that requires the user to be verified is turned down without asking the authenticator
  where it told of no PIN (`authorise_of_untold`), and where it told of one the token is asked for
  (`exists_presents_of_told_iff`);
- `presents_after_setPin_iff` has it of the commands after a PIN was set. A session that connects to an authenticator
  without a PIN cannot use the PIN that it sets (`pinNotSet_of_connected`).
-/

namespace SecurityKey.Fido

open Action (Moves)
open Credential (UserVerification)
open Crypto (PinToken)
open Crypto.PinProtocol (hashPin)
open Simulated (Authenticator)

variable {σ : Type} {card : Card σ} {config : Config}

/-! ## Connections that last -/

namespace Session

/-- Whether the authenticator told that a PIN is set. -/
def toldSet (s : Session σ) : Bool := (s.info.map Ctap.Info.isPinSet).getD false

theorem toldSet_of_info {s : Session σ} {info : Ctap.Info} (h : s.info = some info) : s.toldSet = info.isPinSet := by
  rw [toldSet, h]
  rfl

/-- What the authenticator told stays known, and where it told of no PIN, no token comes. -/
def steady : Movement (Session σ) where
  rel s t := t.info = s.info ∧ (s.toldSet = false → s.pinToken = none → t.pinToken = none)
  refl _ := ⟨rfl, fun _ h => h⟩
  trans := by
    rintro s t u ⟨hinfo, htoken⟩ ⟨hinfo', htoken'⟩
    refine ⟨hinfo'.trans hinfo, fun htold hnone => htoken' ?_ (htoken htold hnone)⟩
    rw [toldSet, hinfo]
    exact htold

theorem steady_of_keeping {s t : Session σ} (h : keeping.rel s t) : steady.rel s t :=
  ⟨h.2.1, fun _ hnone => h.2.2.trans hnone⟩

theorem permits_steady {P : Apdu.Command → Prop} : Permits card config steady P :=
  fun c hc => (permits_keeping c hc).mono steady_of_keeping

theorem steady_clearPinToken (s : Session σ) : steady.rel s s.clearPinToken := ⟨rfl, fun _ _ => rfl⟩

end Session

open Session (steady permits_steady steady_of_keeping steady_clearPinToken)

namespace Ctap2

variable (card config)

/-- Where the authenticator told of no PIN, it is not asked for a token. -/
theorem pinAuth_of_untold {s : Session σ} (hnone : s.pinToken = none) (htold : s.toldSet = false)
    (v : UserVerification) (pin : Option Pin) (lastAttemptOk : Bool) (hash : Bytes) :
    pinAuth card config v pin lastAttemptOk hash s =
      (if v = .required then
        (checkRequired ((s.info.map Ctap.Info.supportsClientPin).getD false) false pin).map fun _ => none
      else .ok none, s) := by
  unfold Session.toldSet at htold
  unfold pinAuth
  cases v with
  | discouraged => rfl
  | preferred =>
    rw [if_neg nofun, Action.run_bind, Action.run_get]
    simp only [hnone, htold, Bool.and_false, Bool.false_eq_true, if_false, reduceCtorEq]
    cases pin <;> rfl
  | required =>
    rw [if_neg nofun, Action.run_bind, Action.run_get]
    simp only [hnone, htold, Bool.and_false, Bool.false_eq_true, if_false, if_true]
    rw [Action.run_bind]
    cases checkRequired ((s.info.map Ctap.Info.supportsClientPin).getD false) false pin with
    | error e => rfl
    | ok _ => cases pin <;> rfl

/-- Where it told of one, a required verification asks for the token of the PIN. -/
theorem pinAuth_of_told {s : Session σ} {info : Ctap.Info} (hnone : s.pinToken = none) (hinfo : s.info = some info)
    (hset : info.isPinSet = true) (pin : Pin) (lastAttemptOk : Bool) (hash : Bytes) :
    pinAuth card config .required (some pin) lastAttemptOk hash s =
      match Pin.getPinToken card config none pin lastAttemptOk s with
      | (.ok token, t) => (.ok (some (token.authenticate hash)), { t with pinToken := some token })
      | (.error e, t) => (.error e, t) := by
  have hsupported : info.supportsClientPin = true := by
    unfold Ctap.Info.isPinSet at hset
    rw [Ctap.Info.supportsClientPin, eq_of_beq hset]
    rfl
  unfold pinAuth
  rw [if_neg nofun, Action.run_bind, Action.run_get]
  simp only [hnone, hinfo, Option.map_some, Option.getD_some, hsupported, hset, Bool.and_self, if_true, checkRequired,
    Bool.not_true, Bool.false_eq_true, if_false, Option.isNone_some]
  rw [Action.bind_of_ok (Action.run_ofExcept_ok ..), Action.run_bind]
  rcases Pin.getPinToken card config none pin lastAttemptOk s with ⟨e | token, t⟩
  · rfl
  · rfl

theorem steady_pinAuth (v : UserVerification) (pin : Option Pin) (lastAttemptOk : Bool) (hash : Bytes) :
    Moves steady (pinAuth card config v pin lastAttemptOk hash) := by
  intro s
  rcases hr : pinAuth card config v pin lastAttemptOk hash s with ⟨r, t⟩
  refine ⟨?_, fun htold hnone => ?_⟩
  · cases authorisation_of_pinAuth hr with
    | without => rfl
    | refused => rfl
    | cached => rfl
    | failed _ _ h => exact ((Pin.keeps_getPinToken card config none _ lastAttemptOk).of_run h).2.1
    | @issued _ given u _ _ _ h =>
      have hu : u.info = s.info := ((Pin.keeps_getPinToken card config none given lastAttemptOk).of_run h).2.1
      exact hu
  · rw [pinAuth_of_untold card config hnone htold] at hr
    cases hr
    exact hnone

end Ctap2

namespace Session

/-- Where there is a connection, no other is made. -/
theorem connect_of_isConnected (config : Config) {s : Session σ} (h : s.isConnected card = true) :
    connect card config s = (.ok (), s) := by
  unfold connect
  rw [Action.run_bind, Action.run_get]
  simp only [h, if_true, Action.run_pure]

variable (card) in
/-- What may happen to a session while its connection lasts: anything but its end and another connection. -/
def Lasting (s : Session σ) : Happening σ → Prop
  | .release => False
  | .connect | .execute _ => s.isConnected card = true
  | _ => True

variable (card config) in
/-- The sessions that a connection comes to while it lasts. -/
inductive Continues (s : Session σ) : Session σ → Prop
  | here : Continues s s
  | happen {t : Session σ} (h : Continues s t) (x : Happening σ) (hx : Lasting card t x) :
      Continues s (happen card config t x)

theorem steady_happen {s : Session σ} {x : Happening σ} (hx : Lasting card s x) :
    steady.rel s (happen card config s x) := by
  cases x with
  | connect =>
    rw [happen, connect_of_isConnected config hx]
    exact steady.refl s
  | release => cases hx
  | clearPinToken => exact steady_clearPinToken s
  | transmit c => exact permits_steady (P := fun _ => True) c trivial s
  | execute c =>
    rw [happen, execute, Action.bind_of_ok (connect_of_isConnected config hx)]
    have hmoves : Moves steady (do
        let o ← Action.ofExcept id (Operation.resolve c.kind s.isCtap2)
        o.execute card config c : Action (Session σ) Error Answer) :=
      Moves.bind (.ofExcept _ _) fun o =>
        moves_operation permits_steady steady_clearPinToken (Ctap2.steady_pinAuth card config) o c
    exact hmoves s
  | carryOut o c => exact moves_operation permits_steady steady_clearPinToken (Ctap2.steady_pinAuth card config) o c s
  | getRetries => exact Pin.moves_getRetries (P := fun _ => True) permits_steady (fun _ => trivial) s
  | getPinToken secret pin lastAttemptOk =>
    exact steady_of_keeping (Pin.keeps_getPinToken card config secret pin lastAttemptOk s)
  | setPin secret newPin => exact steady_of_keeping (Pin.keeps_setPin card config secret newPin s)
  | changePin secret current newPin lastAttemptOk =>
    exact Pin.moves_changePin (P := fun _ => True) permits_steady (fun _ => trivial)
      (fun _ _ => ⟨rfl, fun _ h => h⟩) steady_clearPinToken secret current newPin lastAttemptOk s
  | elapse f => exact ⟨rfl, fun _ h => h⟩

/-- What was told when the connection was made stays known, and where no PIN was told of, no token comes. -/
theorem Continues.steady {s t : Session σ} (h : Continues card config s t) : steady.rel s t := by
  induction h with
  | here => exact Session.steady.refl s
  | happen _ x hx ih => exact Session.steady.trans ih (steady_happen hx)

/-- So it does where a PIN was set first. -/
theorem Continues.steady_of_setPin {s t u : Session σ} {secret : Option Bytes} {pin : Pin} {r : Except Error Unit}
    (h : Continues card config t u) (hset : Pin.setPin card config secret pin s = (r, t)) : Session.steady.rel s u :=
  Session.steady.trans (steady_of_keeping ((Pin.keeps_setPin card config secret pin).of_run hset)) h.steady

end Session

/-! ## Commands that require a PIN -/

namespace Privileged

/-- The user has to be verified, and gives this PIN for it. -/
def RequiresPin (pin : Pin) : Privileged → Prop
  | create c => c.userVerification = .required ∧ c.pin = some pin
  | sign s => s.userVerification = .required ∧ s.pin = some pin

/-- Whether the last attempt at the PIN may be used. -/
def lastAttemptOk : Privileged → Bool
  | create c => c.lastAttemptOk
  | sign s => s.lastAttemptOk

/-- A signature by any credential is asked for only of an authenticator that stores credentials. -/
def Askable (s : Session σ) : Privileged → Prop
  | create _ => True
  | sign c => c.allow.isEmpty = true → Ctap2.storesCredentials s = true

variable {c : Privileged} {pin : Pin} {s t : Session σ} {e : Error}

variable (card config) in
/-- What can be asked for is authorised by the PIN. -/
theorem authorise_of_askable (hc : c.RequiresPin pin) (h : c.Askable s) : c.authorise card config s =
    Ctap2.pinAuth card config .required (some pin) c.lastAttemptOk c.clientDataHash s := by
  cases c with
  | create c => rw [authorise, hc.1, hc.2]; rfl
  | sign c =>
    have hstores : (c.allow.isEmpty && !Ctap2.storesCredentials s) = false := by
      cases hempty : c.allow.isEmpty with
      | false => rfl
      | true => rw [h hempty]; rfl
    rw [authorise, Action.run_bind, Action.run_get]
    simp only [hstores, Bool.false_eq_true, if_false, hc.1, hc.2]
    rfl

variable (card config) in
/-- What cannot be asked for is not authorised. -/
theorem authorise_of_not_askable (h : ¬ c.Askable s) : ∃ e, c.authorise card config s = (.error e, s) := by
  cases c with
  | create c => exact absurd trivial h
  | sign c =>
    have hstores : (c.allow.isEmpty && !Ctap2.storesCredentials s) = true := by
      simpa [Askable] using h
    rw [authorise, Action.run_bind, Action.run_get]
    simp only [hstores, if_true]
    exact ⟨_, rfl⟩

/-- A command that is not authorised fails, and nothing is sent for it. -/
theorem run_of_refused (h : c.authorise card config s = (.error e, t)) : c.run card config s = (.error e, t) := by
  cases c with
  | create c => exact Action.bind_of_error h _
  | sign c =>
    rw [authorise, Action.run_bind, Action.run_get] at h
    rw [run, Ctap2.getAssertion, Action.run_bind, Action.run_get]
    simp only at h ⊢
    split at h
    · rename_i hstores
      rw [if_pos hstores]
      cases h
      rfl
    · rename_i hstores
      rw [if_neg hstores]
      exact Action.bind_of_error h _

end Privileged

section Presenting

variable {c : Privileged} {pin : Pin} {s : Session σ} {info : Ctap.Info}

variable (card config) in
/-- Where the authenticator told of no PIN and there is no token, the command is not authorised. -/
theorem authorise_of_untold (hinfo : s.info = some info) (hsupported : info.supportsClientPin = true)
    (hset : info.isPinSet = false) (hnone : s.pinToken = none) (hc : c.RequiresPin pin) (h : c.Askable s) :
    c.authorise card config s = (.error .pinNotSet, s) := by
  have htold : s.toldSet = false := (Session.toldSet_of_info hinfo).trans hset
  rw [Privileged.authorise_of_askable card config hc h, Ctap2.pinAuth_of_untold card config hnone htold, if_pos rfl,
    hinfo, Option.map_some, Option.getD_some, hsupported]
  rfl

/-- A command presents a token exactly when it is authorised by one. -/
theorem exists_presents_iff : (∃ token answer, Presents card config c s token answer) ↔
    ∃ token t, c.authorise card config s = (.ok (some (token.authenticate c.clientDataHash)), t) ∧
      t.pinToken = some token := by
  constructor
  · rintro ⟨token, answer, t, hauth, ht, -⟩
    exact ⟨token, t, hauth, ht⟩
  · rintro ⟨token, t, hauth, ht⟩
    exact ⟨token, _, t, hauth, ht, rfl⟩

theorem not_exists_presents_of_refused {e : Error} {t : Session σ} (h : c.authorise card config s = (.error e, t)) :
    ¬ ∃ token answer, Presents card config c s token answer := by
  rw [exists_presents_iff]
  rintro ⟨token, u, hauth, -⟩
  rw [h] at hauth
  cases hauth

/-- Where the authenticator told of a PIN and there is no token, the command presents the token that it gets. -/
theorem exists_presents_of_told_iff (hinfo : s.info = some info) (hset : info.isPinSet = true)
    (hnone : s.pinToken = none) (hc : c.RequiresPin pin) (h : c.Askable s) :
    (∃ token answer, Presents card config c s token answer) ↔
      (Pin.getPinToken card config none pin c.lastAttemptOk s).1.isOk = true := by
  have hauth := (Privileged.authorise_of_askable card config hc h).trans
    (Ctap2.pinAuth_of_told card config hnone hinfo hset pin c.lastAttemptOk c.clientDataHash)
  rcases hget : Pin.getPinToken card config none pin c.lastAttemptOk s with ⟨e | token, t⟩
  · rw [hget] at hauth
    exact ⟨fun hp => absurd hp (not_exists_presents_of_refused hauth), nofun⟩
  · rw [hget] at hauth
    exact ⟨fun _ => rfl, fun _ => exists_presents_iff.mpr ⟨token, _, hauth, rfl⟩⟩

/-- With a token that is cached, the command presents that. -/
theorem exists_presents_of_token {token : PinToken} (htoken : s.pinToken = some token) (hc : c.RequiresPin pin)
    (h : c.Askable s) : ∃ token answer, Presents card config c s token answer := by
  refine exists_presents_iff.mpr ⟨token, s, ?_, htoken⟩
  rw [Privileged.authorise_of_askable card config hc h, pinAuth_of_cached card config htoken, if_neg nofun]

end Presenting

/-! ## After a PIN was set -/

/-- An authenticator that was given the PIN, has an attempt for it, and agrees with the keys that the host makes up. -/
structure Ready (config : Config) (pin : Pin) (lastAttemptOk : Bool) (a : Authenticator) : Prop where
  knowsPins : KnowsPins a
  stored : a.pin = some (beforeZero pin.text)
  keys : Pin.KeysAgree config none a
  attempt : Pin.HasAttempt a.retries lastAttemptOk
  blocks : a.token.length % 16 = 0
  short : a.token.length < 2 ^ 64

section Fresh

variable {shows : σ → Authenticator → List Bytes → Prop} {s t u : Session σ} {a : Authenticator} {heard : List Bytes}
  {secret : Option Bytes} {info : Ctap.Info} {pin : Pin} {c : Privileged}

theorem exists_presents_iff_of_ready (hreach : InReach card config.chunkSize shows) (h : shows u.card a heard)
    (ha : Ready config pin c.lastAttemptOk a) (hinfo : u.info = some info) (hsupported : info.supportsClientPin = true)
    (hc : c.RequiresPin pin) :
    (∃ token answer, Presents card config c u token answer) ↔ c.Askable u ∧
      (u.pinToken ≠ none ∨ info.isPinSet = true ∧ hashPin pin.text = hashPin (beforeZero pin.text)) := by
  by_cases hask : c.Askable u
  · cases htoken : u.pinToken with
    | some token => exact ⟨fun _ => ⟨hask, .inl nofun⟩, fun _ => exists_presents_of_token htoken hc hask⟩
    | none =>
      cases hset : info.isPinSet with
      | true =>
        rw [exists_presents_of_told_iff hinfo hset htoken hc hask,
          Pin.isOk_getPinToken_iff hreach h ha.knowsPins ha.keys ha.stored ha.attempt ha.blocks ha.short]
        simp [hask]
      | false =>
        have hrefused := authorise_of_untold card config hinfo hsupported hset htoken hc hask
        simp [not_exists_presents_of_refused hrefused]
  · obtain ⟨e, hrefused⟩ := Privileged.authorise_of_not_askable card config hask
    exact ⟨fun hp => absurd hp (not_exists_presents_of_refused hrefused), fun hp => absurd hp.1 hask⟩

/-- After a PIN was set, the commands that require the user to be verified by it present a token for it exactly where
the authenticator had told before that it has a PIN, or a token is cached: the session goes on with what it was told
when it connected. Where that was that there is no PIN, they fail because no PIN is set, and send nothing. -/
theorem presents_after_setPin_iff (hreach : InReach card config.chunkSize shows) (h : shows s.card a heard)
    (ha : KnowsPins a) (hkeys : Pin.KeysAgree config secret a) (hinfo : s.info = some info)
    (hsupported : info.supportsClientPin = true) (hset : Pin.setPin card config secret pin s = (.ok (), t)) :
    (a.pin = none ∧ ∃ heard', shows t.card { a with pin := some (beforeZero pin.text) } heard') ∧
    ∀ u, Session.Continues card config t u → ∀ c, c.RequiresPin pin →
      (info.isPinSet = false → u.pinToken = none → c.Askable u → c.run card config u = (.error .pinNotSet, u)) ∧
      (info.isPinSet = false → s.pinToken = none → u.pinToken = none) ∧
      ∀ b heard', shows u.card b heard' → Ready config pin c.lastAttemptOk b →
        ((∃ token answer, Presents card config c u token answer) ↔ c.Askable u ∧
          (u.pinToken ≠ none ∨ info.isPinSet = true ∧ hashPin pin.text = hashPin (beforeZero pin.text))) := by
  obtain ⟨hpin, hpolicy⟩ := (Pin.setPin_eq_ok_iff hreach h ha hkeys).mp ⟨t, hset⟩
  refine ⟨⟨hpin, ?_⟩, ?_⟩
  · obtain ⟨host, shared, hhost, hshared⟩ := hkeys s.keysMade
    obtain ⟨t', message, hset', ht', -⟩ := Pin.setPin_answered hreach h ha hhost hshared hpin hpolicy
    obtain rfl : t = t' := congrArg Prod.snd (hset.symm.trans hset')
    exact ⟨_, ht'⟩
  · intro u hu c hc
    have hsteady := hu.steady_of_setPin hset
    have huinfo : u.info = some info := hsteady.1.trans hinfo
    refine ⟨?_, ?_, ?_⟩
    · intro hunset hnone hask
      exact Privileged.run_of_refused (authorise_of_untold card config huinfo hsupported hunset hnone hc hask)
    · intro hunset hnone
      exact hsteady.2 ((Session.toldSet_of_info hinfo).trans hunset) hnone
    · intro b heard' hb hready
      exact exists_presents_iff_of_ready hreach hb hready huinfo hsupported hc

end Fresh

/-! ## Simulated authenticators -/

/-- A credential that the PIN is required for. -/
def creationRequiringPin : Creation := { Session.creationWithPin with userVerification := .required }

theorem digits_eq_beforeZero : beforeZero "1234" = "1234" := by decide +kernel

/-- Where a new authenticator was said to have a PIN, the PIN that is set there is used. -/
theorem presents_after_setPin_iff_digits : ∃ t,
    Pin.setPin Simulated.Card.card Pin.fixedKeys (some Pin.hostSecret) ⟨"1234"⟩
      { Pin.sessionWith .new with info := some Pin.withDigits.info } = (.ok (), t) ∧
    ∃ token answer, Presents Simulated.Card.card Pin.fixedKeys (.create creationRequiringPin) t token answer := by
  let s : Session Simulated.Card := { Pin.sessionWith .new with info := some Pin.withDigits.info }
  have hholds : s.card.Holds .new [] := Pin.holds_sessionWith .new
  have hinfo : s.info = some Pin.withDigits.info := rfl
  have hreach := inReach_card Pin.fixedKeys.chunkSize
  have hpolicy : Pin.checkPolicy ⟨"1234"⟩ = .ok () := Action.eq_ok_of_toOption (by decide +kernel)
  have hself : (Authenticator.new.agreementKey.agreeCoordinates Authenticator.new.agreementKey.x
      Authenticator.new.agreementKey.y).toOption.isSome = true := by decide +kernel
  obtain ⟨shared, hshared⟩ := Option.isSome_iff_exists.mp hself
  have hkeys : Pin.KeysAgree Pin.fixedKeys none { Authenticator.new with pin := some (beforeZero "1234") } :=
    fun _ => ⟨_, shared, rfl, Action.eq_ok_of_toOption hshared, Action.eq_ok_of_toOption hshared⟩
  obtain ⟨t, hset⟩ := (Pin.setPin_eq_ok_iff hreach hholds ⟨rfl, rfl⟩ Pin.keysAgree_new).mpr ⟨rfl, hpolicy⟩
  obtain ⟨⟨-, heard, ht⟩, hafter⟩ := presents_after_setPin_iff hreach hholds ⟨rfl, rfl⟩ Pin.keysAgree_new
    hinfo rfl hset
  obtain ⟨-, -, hpresents⟩ := hafter t .here (.create creationRequiringPin) ⟨rfl, rfl⟩
  refine ⟨t, hset, (hpresents _ _ ht ⟨⟨rfl, rfl⟩, rfl, hkeys, .inl (by decide), by decide, by decide⟩).mpr ?_⟩
  refine ⟨trivial, .inr ⟨rfl, ?_⟩⟩
  rw [digits_eq_beforeZero]

/-- A session that connects to an authenticator without a PIN can set one, and cannot use it while the connection
lasts. -/
theorem pinNotSet_of_connected (config : Config) {s : Session Simulated.Card} {a : Authenticator} {heard : List Bytes}
    {secret : Option Bytes} {pin : Pin} (h : s.card.Holds a heard) (ha : KnowsPins a) (hpin : a.pin = none)
    (hs : s.connected = false) (hnone : s.pinToken = none)
    (hconfig : config.selectApplet = true ∧ config.forceCtap1 = false) (hkeys : Pin.KeysAgree config secret a)
    (hpolicy : Pin.checkPolicy pin = .ok ()) :
    ∃ t u heard', Session.connect Simulated.Card.card config s = (.ok (), t) ∧
      Pin.setPin Simulated.Card.card config secret pin t = (.ok (), u) ∧
      u.card.Holds { a with pin := some (beforeZero pin.text) } heard' ∧
      ∀ v, Session.Continues Simulated.Card.card config u v → ∀ c : Privileged, c.RequiresPin pin → c.Askable v →
        c.run Simulated.Card.card config v = (.error .pinNotSet, v) := by
  have hsupported : a.info.supportsClientPin = true := by
    simp [Authenticator.info, Ctap.Info.supportsClientPin, ha.pinSupported]
  have hunset : a.info.isPinSet = false := by
    simp [Authenticator.info, Ctap.Info.isPinSet, ha.pinSupported, hpin]
  obtain ⟨t, heard', hconnect, hinfo, htoken, ht⟩ := Session.connect_holding h ha.ctap2 hs hconfig
  obtain ⟨host, shared, hhost, hshared⟩ := hkeys t.keysMade
  obtain ⟨u, message, hset, hu, -⟩ :=
    Pin.setPin_answered (inReach_card config.chunkSize) ht ha hhost hshared hpin hpolicy
  refine ⟨t, u, _, hconnect, hset, hu, fun v hv c hc hask => ?_⟩
  have hsteady := hv.steady_of_setPin hset
  have htold : t.toldSet = false := (Session.toldSet_of_info hinfo).trans hunset
  exact Privileged.run_of_refused (authorise_of_untold _ _ (hsteady.1.trans hinfo) hsupported hunset
    (hsteady.2 htold (htoken.trans hnone)) hc hask)

/-- The first PIN of a new authenticator is stored, and the next command that requires it fails because none is set. -/
theorem not_presents_after_setPin_digits : ∃ t u heard,
    Session.connect Simulated.Card.card Pin.fixedKeys (Pin.sessionWith .new) = (.ok (), t) ∧
      Pin.setPin Simulated.Card.card Pin.fixedKeys (some Pin.hostSecret) ⟨"1234"⟩ t = (.ok (), u) ∧
      u.card.Holds { Authenticator.new with pin := some "1234" } heard ∧
      Ctap2.makeCredential Simulated.Card.card Pin.fixedKeys creationRequiringPin u = (.error .pinNotSet, u) := by
  have hpolicy : Pin.checkPolicy ⟨"1234"⟩ = .ok () := Action.eq_ok_of_toOption (by decide +kernel)
  obtain ⟨t, u, heard, hconnect, hset, hu, hafter⟩ := pinNotSet_of_connected Pin.fixedKeys
    (Pin.holds_sessionWith .new) ⟨rfl, rfl⟩ rfl rfl rfl ⟨rfl, rfl⟩ Pin.keysAgree_new hpolicy
  rw [digits_eq_beforeZero] at hu
  exact ⟨t, u, heard, hconnect, hset, hu, hafter u .here (.create creationRequiringPin) ⟨rfl, rfl⟩ trivial⟩

end SecurityKey.Fido
