import SecurityKey.Fido.Operation
import SecurityKey.Proofs.Action

/-!
# What moves a session

Whatever a session does is made of exchanges with its card and of a few changes of its own. So a movement that permits
the exchanges and those changes is kept to by whole operations.

- `Session.Permits card config m P`: the movement `m` permits to exchange every command that is `P`; then U2F
  operations (`U2f.moves_makeCredential`, `U2f.moves_getAssertion`) and requests about the PIN
  (`Pin.moves_getPinToken`, `Pin.moves_setPin`, `Pin.moves_changePin`) keep to it, and all operations do if the
  decisions about codes do (`moves_operation`);
- `Session.Attempt` tells what may become of an attempt to connect (`Session.attempt_of_connect`),
  `Ctap2.Authorisation` what may become of the decision how a command is authorised
  (`Ctap2.authorisation_of_pinAuth`).
-/

namespace SecurityKey.Fido

open Action (Moves)
open Credential (UserVerification)

namespace Session

variable {σ : Type} (card : Card σ) (config : Config)

/-! ## Exchanges -/

/-- Every command of one kind may be exchanged. -/
def Permits (m : Movement (Session σ)) (P : Apdu.Command → Prop) : Prop :=
  ∀ c, P c → Moves m (transmit card config c)

section Permits

variable {card config} {m : Movement (Session σ)} {P : Apdu.Command → Prop} (h : Permits card config m P)

include h

theorem Permits.communicate {c : Apdu.Command} (hc : P c) : Moves m (communicate card config c) := by
  refine (h c hc).bind fun r => ?_
  split
  · exact .pure _
  · exact .throw _

theorem Permits.ctap2Request {request : Bytes} (hc : P (ctap2Apdu request)) :
    Moves m (ctap2Request card config request) :=
  (h.communicate hc).bind fun _ => .ofExcept _ _

theorem Permits.ctap2RequestBody {request : Bytes} (hc : P (ctap2Apdu request)) :
    Moves m (ctap2RequestBody card config request) := by
  refine (h.ctap2Request hc).bind fun body => ?_
  split
  · exact .pure _
  · exact .throw _

end Permits

/-! ## Connecting -/

/-- The commands that belong to a connection. -/
inductive Greets : Apdu.Command → Prop
  | select (aid : Bytes) : Greets (.select aid)
  | version : Greets ((Apdu.Command.header 0x00 0x03 0x00 0x00).withNe 256)
  | info : Greets (ctap2Apdu (Ctap.request .getInfo none))

section Greeting

variable {card config} {m : Movement (Session σ)} (h : Permits card config m Greets)
  (hset : ∀ s version info events, m.rel s { s with version, info, events })

include h hset

theorem moves_selectApplet (candidates : List Bytes) : Moves m (selectApplet card config candidates) := by
  induction candidates with
  | nil => exact .throw _
  | cons aid rest ih =>
    refine (h _ (.select aid)).bind fun r => ?_
    split
    · exact ih
    · split
      · refine Moves.bind (.ofExcept _ _) fun v => ?_
        exact Moves.bind (.modify fun s => hset s s.version s.info _) fun _ => .pure _
      · exact .throw _

theorem moves_readVersion : Moves m (readVersion card config) := by
  unfold readVersion
  split
  · exact moves_selectApplet h hset aids
  · exact (h.communicate .version).bind fun r => .ofExcept _ _

theorem moves_readInfo : Moves m (readInfo card config) := by
  refine (h.ctap2Request .info).observe.bind fun result => ?_
  split
  · exact .pure _
  · refine Moves.bind (.ofExcept _ _) fun info => ?_
    refine Moves.bind (.modify fun s => hset s s.version s.info _) fun _ => ?_
    exact .modify fun s => hset s s.version _ s.events
  · split
    · exact .throw _
    · exact .pure _

/-- The dialogue with a card that is connected says what belongs to it and learns the version and the information. -/
theorem moves_greet : Moves m (greet card config) := by
  refine (moves_readVersion h hset).bind fun v => ?_
  refine Moves.bind (.modify fun s => hset s s.version s.info _) fun _ => ?_
  refine Moves.bind (.modify fun s => hset s _ _ s.events) fun _ => ?_
  split
  · exact .pure _
  · exact moves_readInfo h hset

end Greeting

/-- The session once its card is there: it was connected already, or it has just been connected. -/
inductive Opens (s : Session σ) : Session σ → Prop
  | ready (h : card.isConnected s.card = true) : Opens s s
  | connected {c : σ} (hlost : card.isConnected s.card = false) (h : card.connect s.card = (.ok (), c)) :
      Opens s { s with card := c }

/-- There is one such session. -/
theorem Opens.unique {card : Card σ} {s t u : Session σ} (ht : Opens card s t) (hu : Opens card s u) : t = u := by
  cases ht with
  | ready h =>
    cases hu with
    | ready _ => rfl
    | connected hlost _ => cases h.symm.trans hlost
  | connected hlost h =>
    cases hu with
    | ready h' => cases h'.symm.trans hlost
    | connected _ h' =>
      cases h.symm.trans h'
      rfl

/-- What may become of an attempt to connect. -/
inductive Attempt (s : Session σ) : Except Error Unit → Session σ → Prop
  | needless (h : s.isConnected card = true) : Attempt s (.ok ()) s
  /-- The card cannot be connected. -/
  | refused {e : Link.Error} {c : σ} (hs : s.isConnected card = false) (hlost : card.isConnected s.card = false)
      (h : card.connect s.card = (.error e, c)) : Attempt s (.error (.ofLink e)) { s with card := c }
  /-- The card is there, but the dialogue with it fails. -/
  | failed {t u : Session σ} {e : Error} (hs : s.isConnected card = false) (hopen : Opens card s t)
      (h : greet card config t = (.error e, u)) : Attempt s (.error e) (release card u)
  | completed {t u : Session σ} (hs : s.isConnected card = false) (hopen : Opens card s t)
      (h : greet card config t = (.ok (), u)) : Attempt s (.ok ()) { u with connected := true }

variable {card config}

/-- What follows is the same whether the card had to be connected or not. -/
theorem Attempt.settled {s t u : Session σ} {r : Except Error Unit} (hs : s.isConnected card = false)
    (hopen : Opens card s u) (h : (Action.observe (greet card config) >>= fun
      | .ok () => modify fun s => { s with connected := true }
      | .error e => do modify (release card); throw e : Action (Session σ) Error Unit) u = (r, t)) :
    Attempt card config s r t := by
  rw [Action.run_bind, Action.run_observe] at h
  rcases hg : greet card config u with ⟨e | _, v⟩
  · rw [hg] at h
    cases h
    exact .failed hs hopen hg
  · rw [hg] at h
    cases h
    exact .completed hs hopen hg

/-- Everything that a connection does. -/
theorem attempt_of_connect {s t : Session σ} {r : Except Error Unit} (h : connect card config s = (r, t)) :
    Attempt card config s r t := by
  unfold connect at h
  rw [Action.run_bind, Action.run_get] at h
  simp only at h
  split at h
  · rename_i hs
    cases h
    exact .needless hs
  rename_i hs
  rw [Bool.not_eq_true] at hs
  split at h
  · rename_i hlost
    rw [Bool.not_eq_true'] at hlost
    have hrun : (onCard (card.connect.adapt Error.ofLink) : Action (Session σ) Error Unit) s =
        ((card.connect s.card).1.mapError Error.ofLink, { s with card := (card.connect s.card).2 }) := rfl
    rw [Action.run_bind, hrun] at h
    rcases hc : card.connect s.card with ⟨e | _, c⟩
    · rw [hc] at h
      cases h
      exact .refused hs hlost hc
    · rw [hc] at h
      exact .settled hs (.connected hlost hc) h
  · rename_i hready
    rw [Bool.not_eq_true', Bool.not_eq_false] at hready
    exact .settled hs (.ready hready) h

end Session

/-! ## U2F -/

namespace U2f

variable {σ : Type} {card : Card σ} {config : Config} {m : Movement (Session σ)}

/-- Every authentication that can be sent has class zero. -/
theorem cla_of_authenticateApdu? {checkOnly : Bool} {clientDataHash app : Bytes.Sized 32} {keyHandle : Bytes}
    {c : Apdu.Command} (h : authenticateApdu? checkOnly clientDataHash app keyHandle = some c) : c.cla = 0x00 := by
  unfold authenticateApdu? at h
  split at h
  · obtain rfl := Option.some.inj h
    rfl
  · cases h

variable (h : Session.Permits card config m (·.cla = 0x00))

include h

theorem moves_checkExcluded (clientDataHash app : Bytes.Sized 32) (exclude : List Credential.Descriptor) :
    Moves m (checkExcluded card config clientDataHash app exclude) := by
  induction exclude with
  | nil => exact .pure _
  | cons d rest ih =>
    unfold checkExcluded
    split
    · exact ih
    · rename_i c hc
      refine (h c (cla_of_authenticateApdu? hc)).bind fun r => ?_
      split
      · exact .throw _
      · split
        · exact ih
        · exact .throw _

theorem moves_tryHandles (clientDataHash app : Bytes.Sized 32) (allow : List Credential.Descriptor) :
    Moves m (tryHandles card config clientDataHash app allow) := by
  induction allow with
  | nil => exact .throw _
  | cons d rest ih =>
    unfold tryHandles
    split
    · exact ih
    · rename_i c hc
      refine (h c (cla_of_authenticateApdu? hc)).bind fun r => ?_
      split
      · exact ih
      · split
        · exact .ofExcept _ _
        · exact .throw _

theorem moves_makeCredential (c : Creation) : Moves m (makeCredential card config c) := by
  refine Moves.bind (.ofExcept _ _) fun _ => ?_
  refine (moves_checkExcluded h _ _ _).bind fun _ => ?_
  refine (h.communicate rfl).bind fun r => ?_
  exact Moves.bind (.ofExcept _ _) fun parts => .ofExcept _ _

theorem moves_getAssertion (s : Signing) : Moves m (getAssertion card config s) := by
  refine Moves.bind (.ofExcept _ _) fun _ => ?_
  split
  · exact Moves.bind (.throw _) fun _ => moves_tryHandles h _ _ _
  · exact moves_tryHandles h _ _ _

end U2f

/-! ## Requests about the PIN -/

namespace Pin

variable {σ : Type} {card : Card σ} {config : Config} {m : Movement (Session σ)} {P : Apdu.Command → Prop}
  (h : Session.Permits card config m P) (hP : ∀ r : Ctap.ClientPin, P (Session.ctap2Apdu r.toBytes))

include h hP

theorem moves_request (r : Ctap.ClientPin) : Moves m (request card config r) :=
  (h.ctap2Request (hP r)).bind fun _ => .ofExcept _ _

theorem moves_submit (before : UInt8) (r : Ctap.ClientPin) : Moves m (submit card config before r) :=
  (moves_request h hP r).adapt _

theorem moves_getRetries : Moves m (getRetries card config) := by
  refine (moves_request h hP _).bind fun r => ?_
  split
  · exact .throw _
  · exact .pure _

theorem moves_checkRetries (lastAttemptOk : Bool) : Moves m (checkRetries card config lastAttemptOk) := by
  refine (moves_getRetries h hP).bind fun n => ?_
  split
  · exact .throw _
  · split
    · exact .throw _
    · exact .pure _

variable (hkeys : ∀ s n, m.rel s { s with keysMade := n })

include hkeys

theorem moves_agree (secret : Option Bytes) : Moves m (agree card config secret) := by
  refine (moves_request h hP _).bind fun r => ?_
  split
  · exact .throw _
  · refine Moves.bind ?_ fun k => .ofExcept _ _
    unfold hostPair
    split
    · exact .ofExcept _ _
    · exact .get_bind fun s => hkeys s _

theorem moves_getPinToken (secret : Option Bytes) (pin : Pin) (lastAttemptOk : Bool) :
    Moves m (getPinToken card config secret pin lastAttemptOk) := by
  refine (moves_checkRetries h hP lastAttemptOk).bind fun retries => ?_
  refine (moves_agree h hP hkeys secret).bind fun a => ?_
  refine Moves.bind (.ofExcept _ _) fun pinHashEnc => ?_
  refine (moves_submit h hP retries _).bind fun r => ?_
  split
  · exact .throw _
  · exact .ofExcept _ _

theorem moves_setPin (secret : Option Bytes) (newPin : Pin) : Moves m (setPin card config secret newPin) := by
  refine Moves.bind (.ofExcept _ _) fun _ => ?_
  refine (moves_agree h hP hkeys secret).bind fun a => ?_
  refine Moves.bind (.ofExcept _ _) fun newPinEnc => ?_
  exact (moves_request h hP _).bind fun _ => .pure _

theorem moves_changePin (hclear : ∀ s, m.rel s s.clearPinToken) (secret : Option Bytes) (current newPin : Pin)
    (lastAttemptOk : Bool) : Moves m (changePin card config secret current newPin lastAttemptOk) := by
  refine Moves.bind (.ofExcept _ _) fun _ => ?_
  refine (moves_checkRetries h hP lastAttemptOk).bind fun retries => ?_
  refine (moves_agree h hP hkeys secret).bind fun a => ?_
  refine Moves.bind (.ofExcept _ _) fun newPinEnc => ?_
  refine Moves.bind (.ofExcept _ _) fun pinHashEnc => ?_
  refine Moves.bind (.modify hclear) fun _ => ?_
  exact (moves_submit h hP retries _).bind fun _ => .pure _

end Pin

/-! ## Authorisation -/

namespace Ctap2

variable {σ : Type} (card : Card σ) (config : Config)

/-- What may become of the decision how a command is authorised. -/
inductive Authorisation (v : UserVerification) (pin : Option Pin) (lastAttemptOk : Bool) (clientDataHash : Bytes)
    (s : Session σ) : Except Error (Option Bytes) → Session σ → Prop
  | without (hv : v ≠ .required) : Authorisation v pin lastAttemptOk clientDataHash s (.ok none) s
  /-- The verification of the user is required and impossible. -/
  | refused (e : Error) : Authorisation v pin lastAttemptOk clientDataHash s (.error e) s
  | cached {token : Crypto.PinToken} (hv : v ≠ .discouraged) (h : s.pinToken = some token) :
      Authorisation v pin lastAttemptOk clientDataHash s (.ok (some (token.authenticate clientDataHash))) s
  /-- No token is got for the PIN. -/
  | failed {info : Ctap.Info} {given : Pin} {t : Session σ} {e : Error} (hv : v ≠ .discouraged)
      (hinfo : s.info = some info)
      (h : Pin.getPinToken card config none given lastAttemptOk s = (.error e, t)) :
      Authorisation v pin lastAttemptOk clientDataHash s (.error e) t
  | issued {info : Ctap.Info} {given : Pin} {t : Session σ} {token : Crypto.PinToken} (hv : v ≠ .discouraged)
      (hinfo : s.info = some info)
      (h : Pin.getPinToken card config none given lastAttemptOk s = (.ok token, t)) :
      Authorisation v pin lastAttemptOk clientDataHash s (.ok (some (token.authenticate clientDataHash)))
        { t with pinToken := some token }

variable {card config}

/-- A verification that is required is possible only with a PIN that is set and given. -/
theorem of_checkRequired {supported set : Bool} {pin : Option Pin} (h : checkRequired supported set pin = .ok ()) :
    (supported && set) = true ∧ pin ≠ none := by
  unfold checkRequired at h
  cases supported <;> cases set <;> cases pin <;> simp_all

theorem authorisation_of_pinAuth {v : UserVerification} {pin : Option Pin} {lastAttemptOk : Bool}
    {clientDataHash : Bytes} {s t : Session σ} {r : Except Error (Option Bytes)}
    (h : pinAuth card config v pin lastAttemptOk clientDataHash s = (r, t)) :
    Authorisation card config v pin lastAttemptOk clientDataHash s r t := by
  unfold pinAuth at h
  by_cases hv : v = .discouraged
  · rw [if_pos hv] at h
    cases h
    exact .without (by simp [hv])
  rw [if_neg hv, Action.run_bind, Action.run_get] at h
  dsimp -zeta only at h
  cases hcached : s.pinToken with
  | some token =>
    rw [hcached] at h
    cases h
    exact .cached hv hcached
  | none =>
    rw [hcached] at h
    dsimp -zeta only at h
    extract_lets supported set go at h
    -- what follows a check that is passed, or the want of one
    have hgo : (v = .required → (supported && set) = true ∧ pin ≠ none) → go () s = (r, t) →
        Authorisation card config v pin lastAttemptOk clientDataHash s r t := by
      intro hrequired h
      cases pin with
      | none =>
        cases h
        exact .without fun hr => (hrequired hr).2 rfl
      | some given =>
        simp only [go] at h
        split at h
        · rename_i hset
          obtain ⟨info, hinfo⟩ : ∃ info, s.info = some info := by
            cases hi : s.info with
            | some info => exact ⟨info, rfl⟩
            | none =>
              simp only [supported, set, hi] at hset
              cases hset
          rw [Action.run_bind] at h
          rcases hget : Pin.getPinToken card config none given lastAttemptOk s with ⟨e | token, u⟩
          · rw [hget] at h
            cases h
            exact .failed hv hinfo hget
          · rw [hget] at h
            cases h
            exact .issued hv hinfo hget
        · rename_i hset
          cases h
          exact .without fun hr => hset (hrequired hr).1
    by_cases hr : v = .required
    · rw [if_pos hr, Action.run_bind] at h
      cases hcheck : checkRequired supported set pin with
      | error e =>
        rw [hcheck] at h
        cases h
        exact .refused e
      | ok _ =>
        rw [hcheck] at h
        exact hgo (fun _ => of_checkRequired hcheck) h
    · rw [if_neg hr] at h
      exact hgo (fun h => absurd h hr) h

/-! ## Commands of CTAP2 -/

section Commands

variable {m : Movement (Session σ)} (h : Session.Permits card config m fun _ => True)
  (hclear : ∀ s, m.rel s s.clearPinToken)

include h hclear

theorem moves_privilegedRequest (request : Bytes) : Moves m (privilegedRequest card config request) := by
  refine (h.ctap2RequestBody trivial).observe.bind fun result => ?_
  split
  · exact .pure _
  · dsimp only
    split
    · exact Moves.bind (.modify hclear) fun _ => .throw _
    · exact .throw _

variable (hauth : ∀ v pin lastAttemptOk hash, Moves m (pinAuth card config v pin lastAttemptOk hash))

include hauth

theorem moves_makeCredential (c : Creation) : Moves m (makeCredential card config c) := by
  refine (hauth _ _ _ _).bind fun auth => ?_
  refine (moves_privilegedRequest h hclear _).bind fun body => ?_
  exact Moves.bind (.ofExcept _ _) fun a => .ofExcept _ _

theorem moves_getAssertion (s : Signing) : Moves m (getAssertion card config s) := by
  have hsign : Moves m (do
      let auth ← pinAuth card config s.userVerification s.pin s.lastAttemptOk s.clientDataHash.val
      let body ← privilegedRequest card config (signingRequest s auth).toBytes
      let a ← Action.ofExcept Error.ofCbor (Ctap.Assertion.ofValue body)
      Action.ofExcept id (PublicKeyCredential.ofAssertion s.allow a.credential a.authData a.signature
        (a.user.map (·.id)))) := by
    refine (hauth _ _ _ _).bind fun auth => ?_
    refine (moves_privilegedRequest h hclear _).bind fun body => ?_
    exact Moves.bind (.ofExcept _ _) fun a => .ofExcept _ _
  refine .get_bind fun t => ?_
  split
  · exact Moves.bind (.throw _) (fun _ => hsign) t
  · exact hsign t

end Commands

end Ctap2

/-! ## Operations -/

/-- What keeps to a movement in every decision about a code does so in every operation. -/
theorem moves_operation {σ : Type} {card : Card σ} {config : Config} {m : Movement (Session σ)}
    (h : Session.Permits card config m fun _ => True) (hclear : ∀ s, m.rel s s.clearPinToken)
    (hauth : ∀ v pin lastAttemptOk hash, Moves m (Ctap2.pinAuth card config v pin lastAttemptOk hash))
    (o : Operation) (c : Command) : Moves m (o.execute card config c) := by
  have hu2f : Session.Permits card config m (·.cla = 0x00) := fun c _ => h c trivial
  unfold Operation.execute
  split
  · exact (Ctap2.moves_makeCredential h hclear hauth _).map _
  · exact (Ctap2.moves_getAssertion h hclear hauth _).map _
  · exact Moves.map ((h.ctap2RequestBody trivial).bind fun body => .ofExcept _ _) _
  · exact (U2f.moves_makeCredential hu2f _).map _
  · exact (U2f.moves_getAssertion hu2f _).map _
  · exact .throw _

end SecurityKey.Fido
