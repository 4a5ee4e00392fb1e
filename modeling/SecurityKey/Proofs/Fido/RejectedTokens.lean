import SecurityKey.Proofs.Fido.Reconnection

/-!
# Tokens that were turned down

An authenticator may stop honouring a token at any time, and says so in the answer to a request that carries a code of
it. The session is meant to forget such a token, so that the next command asks for a new one.

- `Privileged`: the commands whose requests may carry a code, with the decision about the code (`authorise`) apart from
  the request (`Privileged.run_eq`);
- `Presents`: a command sends a code of a token; `Issues`: it gets the token first;
- a token that is not cached is not presented until it is issued (`neverAgain_of_not_cached`), and one that is cached is
  presented by the next command that asks for verification (`presents_of_cached`);
- so a token that was turned down is presented again exactly where the status is one of two that the session takes for
  something else (`neverAgain_iff`), as with an authenticator whose token expires (`not_forgetsRejected_of_expired`).
-/

namespace SecurityKey.Fido

open Credential (UserVerification)
open Crypto (PinToken)
open Exchange (Dialogue)
open Session (ctap2Apdu transmit)

variable {σ : Type} (card : Card σ) (config : Config)

/-! ## Privileged commands -/

/-- A command whose request may carry a code. -/
inductive Privileged
  | create (c : Creation)
  | sign (s : Signing)

namespace Privileged

/-- What a code is computed of. -/
def clientDataHash : Privileged → Bytes
  | create c => c.clientDataHash.val
  | sign s => s.clientDataHash.val

/-- The command carried out in a session that speaks CTAP2. -/
def run : Privileged → Action (Session σ) Error PublicKeyCredential
  | create c => Ctap2.makeCredential card config c
  | sign s => Ctap2.getAssertion card config s

/-- What is done before the request is sent, with the code for it. -/
def authorise : Privileged → Action (Session σ) Error (Option Bytes)
  | create c => Ctap2.pinAuth card config c.userVerification c.pin c.lastAttemptOk c.clientDataHash.val
  | sign s => do
    if s.allow.isEmpty && !Ctap2.storesCredentials (← get) then
      throw (.unsupported "authenticator does not support resident keys")
    Ctap2.pinAuth card config s.userVerification s.pin s.lastAttemptOk s.clientDataHash.val

/-- The request with its code. -/
def message : Privileged → Option Bytes → Bytes
  | create c, auth => (Ctap2.creationRequest c auth).toBytes
  | sign s, auth => (Ctap2.signingRequest s auth).toBytes

/-- The session after several commands. -/
def after (s : Session σ) (commands : List Privileged) : Session σ :=
  commands.foldl (fun s c => (c.run card config s).2) s

/-- The session after a command: after the decision about the code, or after the request with it. -/
theorem run_eq (c : Privileged) (s : Session σ) : (c.run card config s).2 =
    match c.authorise card config s with
    | (.error _, t) => t
    | (.ok auth, t) => (Ctap2.privilegedRequest card config (c.message auth) t).2 := by
  -- what follows the request leaves the session alone
  have hfinish : ∀ {α : Type} {m : Bytes} {f : Cbor.Value → Action (Session σ) Error α} {t : Session σ},
      (∀ body u, (f body u).2 = u) →
      ((Ctap2.privilegedRequest card config m >>= f) t).2 = (Ctap2.privilegedRequest card config m t).2 := by
    intro α m f t hf
    rw [Action.run_bind]
    rcases Ctap2.privilegedRequest card config m t with ⟨e | body, u⟩
    · rfl
    · exact hf body u
  cases c with
  | create c =>
    rw [run, Ctap2.makeCredential, Action.run_bind, authorise]
    rcases Ctap2.pinAuth card config c.userVerification c.pin c.lastAttemptOk c.clientDataHash.val s with ⟨e | auth, t⟩
    · rfl
    · refine hfinish fun body u => ?_
      rw [Action.run_bind]
      cases Credential.Attestation.ofValue body <;> rfl
  | sign c =>
    rw [run, Ctap2.getAssertion, Action.run_bind, Action.run_get, authorise, Action.run_bind, Action.run_get]
    simp only
    split
    · rfl
    · rw [Action.run_bind]
      rcases Ctap2.pinAuth card config c.userVerification c.pin c.lastAttemptOk c.clientDataHash.val s with
        ⟨e | auth, t⟩
      · rfl
      · refine hfinish fun body u => ?_
        rw [Action.run_bind]
        cases Ctap.Assertion.ofValue body <;> rfl

end Privileged

/-! ## Tokens presented and issued -/

/-- A request with a code of a token is sent, and answered. -/
def Presents (c : Privileged) (s : Session σ) (token : PinToken) (answer : Except Error Apdu.Response) : Prop :=
  ∃ t, c.authorise card config s = (.ok (some (token.authenticate c.clientDataHash)), t) ∧ t.pinToken = some token ∧
    (transmit card config (ctap2Apdu (c.message (some (token.authenticate c.clientDataHash)))) t).1 = answer

/-- A session that has no token gets one for a command, and the authenticator has issued it. -/
structure Issues (c : Privileged) (s : Session σ) (token : PinToken) : Prop where
  fresh : s.pinToken = none
  issued : ∃ auth t xs, c.authorise card config s = (.ok auth, t) ∧ t.pinToken = some token ∧
    Dialogue card config.chunkSize s.card xs t.card ∧ Pin.Issued config xs token

/-- Whatever commands follow, none presents a token unless that was issued after all. -/
def NeverAgain (token : PinToken) (s : Session σ) : Prop :=
  ∀ commands c answer, Presents card config c (Privileged.after card config s commands) token answer →
    ∃ front b, front ++ [b] <+: commands ++ [c] ∧ Issues card config b (Privileged.after card config s front) token

section Tokens

variable {card config} {c : Privileged} {s t : Session σ} {token : PinToken} {answer : Except Error Apdu.Response}

variable (card config) in
/-- A decision about a code with a token that is cached. -/
theorem pinAuth_of_cached (h : s.pinToken = some token) (v : UserVerification) (pin : Option Pin)
    (lastAttemptOk : Bool) (hash : Bytes) : Ctap2.pinAuth card config v pin lastAttemptOk hash s =
      (.ok (if v = .discouraged then none else some (token.authenticate hash)), s) := by
  unfold Ctap2.pinAuth
  split
  · rfl
  · rw [Action.run_bind, Action.run_get]
    simp only [h]
    rfl

/-- A token that is got for a decision was issued for it. -/
theorem issued_of_pinAuth {v : UserVerification} {pin : Option Pin} {lastAttemptOk : Bool} {hash : Bytes}
    {r : Except Error (Option Bytes)} (hs : s.pinToken = none)
    (h : Ctap2.pinAuth card config v pin lastAttemptOk hash s = (r, t)) (ht : t.pinToken = some token) :
    (∃ auth, r = .ok auth) ∧ ∃ xs, Dialogue card config.chunkSize s.card xs t.card ∧ Pin.Issued config xs token := by
  cases Ctap2.authorisation_of_pinAuth h with
  | without hv =>
    rw [hs] at ht
    cases ht
  | refused e =>
    rw [hs] at ht
    cases ht
  | cached hv hcached =>
    rw [hs] at hcached
    cases hcached
  | @failed info given u e hv hinfo hget =>
    have hkept := (Pin.keeps_getPinToken card config none given lastAttemptOk).of_run hget
    rw [hkept.2.2, hs] at ht
    cases ht
  | @issued info given u token' hv hinfo hget =>
    have hsays : Session.Says card config _ s _ := Pin.says_getPinToken given lastAttemptOk s
    unfold Session.Says at hsays
    rw [hget] at hsays
    obtain ⟨xs, hx, -, hissued⟩ := hsays
    obtain rfl := Option.some.inj ht
    exact ⟨⟨_, rfl⟩, xs, hx, hissued _ rfl⟩

/-- Whatever is decided about a code, a token that the session has then was cached before or issued for it. -/
theorem token_of_authorise {r : Except Error (Option Bytes)} (h : c.authorise card config s = (r, t))
    (ht : t.pinToken = some token) : s.pinToken = some token ∨ Issues card config c s token := by
  have hpin : ∀ {v : UserVerification} {pin : Option Pin} {lastAttemptOk : Bool} {hash : Bytes},
      c.authorise card config s = Ctap2.pinAuth card config v pin lastAttemptOk hash s →
      s.pinToken = some token ∨ Issues card config c s token := by
    intro v pin lastAttemptOk hash heq
    rw [heq] at h
    cases hs : s.pinToken with
    | some cached =>
      rw [pinAuth_of_cached card config hs] at h
      cases h
      exact .inl (hs.symm.trans ht)
    | none =>
      obtain ⟨⟨auth, rfl⟩, xs, hx, hissued⟩ := issued_of_pinAuth hs h ht
      exact .inr ⟨hs, auth, t, xs, heq.trans h, ht, hx, hissued⟩
  cases c with
  | create c => exact hpin rfl
  | sign c =>
    have hrun : (Privileged.sign c).authorise card config s =
        if c.allow.isEmpty && !Ctap2.storesCredentials s then
          (.error (.unsupported "authenticator does not support resident keys"), s)
        else Ctap2.pinAuth card config c.userVerification c.pin c.lastAttemptOk c.clientDataHash.val s := by
      rw [Privileged.authorise, Action.run_bind, Action.run_get]
      simp only
      split <;> rfl
    split at hrun
    · rw [hrun] at h
      cases h
      exact .inl ht
    · exact hpin hrun

/-- A token that is presented was cached or is issued for the command. -/
theorem token_of_presents (h : Presents card config c s token answer) :
    s.pinToken = some token ∨ Issues card config c s token := by
  obtain ⟨t, ht, htoken, -⟩ := h
  exact token_of_authorise ht htoken

variable (card config) in
/-- A request that may carry a code. -/
theorem run_privilegedRequest (m : Bytes) (s : Session σ) : Ctap2.privilegedRequest card config m s =
    match Session.ctap2RequestBody card config m s with
    | (.ok body, t) => (.ok body, t)
    | (.error e, t) => (.error e, if Ctap2.endsPinSession e then t.clearPinToken else t) := by
  unfold Ctap2.privilegedRequest
  rw [Action.run_bind, Action.run_observe]
  rcases Session.ctap2RequestBody card config m s with ⟨e | body, t⟩
  · simp only
    split <;> rfl
  · rfl

variable (card config) in
/-- A request brings no token. -/
theorem pinToken_privilegedRequest (m : Bytes) (s : Session σ) :
    (Ctap2.privilegedRequest card config m s).2.pinToken = s.pinToken ∨
      (Ctap2.privilegedRequest card config m s).2.pinToken = none := by
  have hmoves : Action.Moves (Session.conversing card config.chunkSize fun _ => True)
      (Session.ctap2RequestBody card config m) := (Session.permits_conversing card config).ctap2RequestBody trivial
  have hkept := (hmoves s).1
  rw [run_privilegedRequest]
  rcases hr : Session.ctap2RequestBody card config m s with ⟨e | body, t⟩
  all_goals rw [hr] at hkept
  · simp only
    split
    · exact .inr rfl
    · exact .inl hkept
  · exact .inl hkept

/-- A token that is cached after a command was cached before or is issued for it. -/
theorem token_of_run (h : (c.run card config s).2.pinToken = some token) :
    s.pinToken = some token ∨ Issues card config c s token := by
  rw [Privileged.run_eq] at h
  rcases ha : c.authorise card config s with ⟨e | auth, t⟩
  · rw [ha] at h
    exact token_of_authorise ha h
  · rw [ha] at h
    simp only at h
    refine token_of_authorise ha ?_
    rcases pinToken_privilegedRequest card config (c.message auth) t with hk | hk
    · exact hk.symm.trans h
    · rw [hk] at h
      cases h

/-- A token that is not cached is not presented until it is issued. -/
theorem neverAgain_of_not_cached (h : s.pinToken ≠ some token) : NeverAgain card config token s := by
  intro commands
  induction commands generalizing s with
  | nil =>
    intro c answer hp
    rcases token_of_presents hp with hcached | hissued
    · exact absurd hcached h
    · exact ⟨[], c, List.prefix_rfl, hissued⟩
  | cons b commands ih =>
    intro c answer hp
    by_cases hb : (b.run card config s).2.pinToken = some token
    · rcases token_of_run hb with hcached | hissued
      · exact absurd hcached h
      · exact ⟨[], b, List.prefix_append [b] _, hissued⟩
    · obtain ⟨front, x, hpre, hissued⟩ := ih hb c answer hp
      exact ⟨b :: front, x, (List.prefix_cons_inj b).mpr hpre, hissued⟩

variable (card config) in
/-- A token that is cached is presented by the next command that asks for the user to be verified. -/
theorem presents_of_cached (h : s.pinToken = some token) : ∃ c answer, Presents card config c s token answer := by
  let c : Creation := .standard (.zero 32) ⟨"", none, none⟩ ⟨[], none, none, none⟩
  have hauth : (Privileged.create c).authorise card config s =
      (.ok (some (token.authenticate c.clientDataHash.val)), s) :=
    pinAuth_of_cached card config h .preferred none false _
  exact ⟨.create c, _, s, hauth, h, rfl⟩

/-- So it is presented without being issued. -/
theorem not_neverAgain_of_cached (h : s.pinToken = some token) : ¬ NeverAgain card config token s := by
  intro hnever
  obtain ⟨c, answer, hp⟩ := presents_of_cached card config h
  obtain ⟨front, b, hpre, hissued⟩ := hnever [] c answer hp
  have hfront : front = [] := by
    have hlen := hpre.length_le
    rw [List.length_append, List.length_singleton, List.nil_append, List.length_singleton] at hlen
    exact List.eq_nil_of_length_eq_zero (by omega)
  rw [hfront] at hissued
  have hnone : s.pinToken = none := hissued.fresh
  rw [h] at hnone
  cases hnone

end Tokens

/-! ## Tokens turned down -/

/-- The statuses by which an authenticator turns a token down. -/
def rejections : List Ctap.Status := [.pinAuthInvalid, .pinTokenExpired, .pinAuthBlocked, .pinNotSet, .pinRequired]

/-- An answer with a status. -/
def AnsweredWith (status : Ctap.Status) (answer : Except Error Apdu.Response) : Prop :=
  ∃ rest, answer = .ok (.ok (status.toByte :: rest))

section Rejections

variable {card config} {c : Privileged} {s t : Session σ} {token : PinToken} {answer : Except Error Apdu.Response}
  {status : Ctap.Status}

/-- What the session takes such an answer for. -/
theorem ctap2Answer_of_rejection (h : AnsweredWith status answer) (hs : status ∈ rejections) :
    Session.ctap2Answer answer = .error (.ofStatus status) := by
  obtain ⟨rest, rfl⟩ := h
  have hparse : Ctap.parseResponse (status.toByte :: rest) = .error (.status status) := by
    simp only [rejections, List.mem_cons, List.not_mem_nil, or_false] at hs
    rcases hs with rfl | rfl | rfl | rfl | rfl <;> rfl
  show (Ctap.parseResponse (status.toByte :: rest)).mapError Error.ofCtap = _
  rw [hparse]
  rfl

/-- Two of the statuses are not taken for the end of a token. -/
theorem endsPinSession_iff (hs : status ∈ rejections) :
    Ctap2.endsPinSession (.ofStatus status) = true ↔ status ≠ .pinTokenExpired ∧ status ≠ .pinNotSet := by
  simp only [rejections, List.mem_cons, List.not_mem_nil, or_false] at hs
  rcases hs with rfl | rfl | rfl | rfl | rfl <;> decide

/-- After its token was turned down the session has none, or still the same. -/
theorem pinToken_of_rejection (hp : Presents card config c s token answer) (ha : AnsweredWith status answer)
    (hs : status ∈ rejections) : (c.run card config s).2.pinToken =
      if Ctap2.endsPinSession (.ofStatus status) then none else some token := by
  obtain ⟨t, ht, htoken, hanswer⟩ := hp
  have hkept : ∀ a, (transmit card config a t).2.pinToken = some token := fun _ => htoken
  rw [Privileged.run_eq, ht]
  simp only
  generalize c.message (some (token.authenticate c.clientDataHash)) = m at hanswer ⊢
  replace hkept := hkept (ctap2Apdu m)
  rcases hr : transmit card config (ctap2Apdu m) t with ⟨received, u⟩
  rw [hr] at hanswer hkept
  obtain rfl : received = answer := hanswer
  have hbody : Session.ctap2RequestBody card config m t = (.error (.ofStatus status), u) := by
    unfold Session.ctap2RequestBody
    rw [Action.run_bind, Session.ctap2Request_of_transmit hr, ctap2Answer_of_rejection ha hs]
  rw [run_privilegedRequest, hbody]
  simp only
  split
  · rfl
  · exact hkept

/-- After an authenticator has turned a token down, no command presents it again until it is issued again, exactly
where the session takes the status for the end of the token: it does not where the token has expired and where no PIN
is set any more. -/
theorem neverAgain_iff (s : Session σ) (c : Privileged) (token : PinToken) (answer : Except Error Apdu.Response)
    (status : Ctap.Status) (hp : Presents card config c s token answer) (ha : AnsweredWith status answer)
    (hs : status ∈ rejections) :
    NeverAgain card config token (c.run card config s).2 ↔ status ≠ .pinTokenExpired ∧ status ≠ .pinNotSet := by
  have htoken := pinToken_of_rejection hp ha hs
  rw [← endsPinSession_iff hs]
  constructor
  · intro hnever
    by_cases hends : Ctap2.endsPinSession (.ofStatus status) = true
    · exact hends
    · rw [if_neg hends] at htoken
      exact absurd hnever (not_neverAgain_of_cached htoken)
  · intro hends
    rw [if_pos hends] at htoken
    apply neverAgain_of_not_cached
    rw [htoken]
    exact nofun

end Rejections

/-! ## Tokens turned down by scripted cards -/

open Simulated.Card (Scripted ofScript scripted_ofScript)

/-- A command with a token that is cached presents it to a scripted card. -/
theorem presents_scripted {s : Session Simulated.Card} {token : PinToken} {data : Bytes} {answers : List Bytes}
    (h : Scripted s.card (data :: answers)) (htoken : s.pinToken = some token) :
    Presents Simulated.Card.card config (.create Session.creationWithPin) s token (.ok (.ok data)) := by
  have hauth : (Privileged.create Session.creationWithPin).authorise Simulated.Card.card config s =
      (.ok (some (token.authenticate (Privileged.create Session.creationWithPin).clientDataHash)), s) :=
    pinAuth_of_cached Simulated.Card.card config htoken .preferred _ false _
  obtain ⟨c, htransmit, -⟩ := Session.transmit_scripted config h (ctap2Apdu
    ((Privileged.create Session.creationWithPin).message
      (some (token.authenticate (Privileged.create Session.creationWithPin).clientDataHash))))
  exact ⟨s, hauth, htoken, congrArg Prod.fst htransmit⟩

/-- A code that the authenticator does not accept ends the token. -/
theorem neverAgain_iff_of_invalid_code :
    let config : Config := .standard fun _ => Pin.pairOfOne
    let token : PinToken := .ofBytes (List.replicate 16 0)
    let s : Session Simulated.Card := { Session.new (ofScript [[0x33]]) with pinToken := some token }
    let c : Privileged := .create Session.creationWithPin
    Presents Simulated.Card.card config c s token (.ok (.ok [0x33])) ∧
      AnsweredWith .pinAuthInvalid (.ok (.ok [0x33])) ∧ .pinAuthInvalid ∈ rejections ∧
      (NeverAgain Simulated.Card.card config token (c.run Simulated.Card.card config s).2 ↔
        Ctap.Status.pinAuthInvalid ≠ .pinTokenExpired ∧ Ctap.Status.pinAuthInvalid ≠ .pinNotSet) := by
  intro config token s c
  have hp : Presents Simulated.Card.card config c s token (.ok (.ok [0x33])) :=
    presents_scripted config (scripted_ofScript [[0x33]]) rfl
  have ha : AnsweredWith .pinAuthInvalid (.ok (.ok [0x33])) := ⟨[], rfl⟩
  have hs : Ctap.Status.pinAuthInvalid ∈ rejections := by decide
  exact ⟨hp, ha, hs, neverAgain_iff s c token (.ok (.ok [0x33])) .pinAuthInvalid hp ha hs⟩

/-- Wherever the authenticator turns a token down in a sequence of commands, no later command presents it again until
it is issued again. -/
def ForgetsRejected (s : Session σ) : Prop :=
  ∀ commands c token answer status, Presents card config c (Privileged.after card config s commands) token answer →
    AnsweredWith status answer → status ∈ rejections →
    NeverAgain card config token (c.run card config (Privileged.after card config s commands)).2

/-- The answers of an authenticator whose token expires at once. -/
def expiringAnswers : List Bytes :=
  [Bytes.ofString "FIDO_2_0", Session.informationAnswer, Pin.retriesAnswer, Pin.keyAnswer, Pin.tokenAnswer, [0x38]]

/-- A token that has expired is presented again. -/
theorem not_forgetsRejected_of_expired :
    ¬ ForgetsRejected Simulated.Card.card (.standard fun _ => Pin.pairOfOne)
      (Session.connect Simulated.Card.card (.standard fun _ => Pin.pairOfOne) (.new (ofScript expiringAnswers))).2 := by
  intro hforgets
  obtain ⟨info, s, hconnect, -, hinfo, hset, hnone, hrest⟩ := Session.connect_informed
    (.standard fun _ => Pin.pairOfOne) (s := .new (ofScript expiringAnswers)) (scripted_ofScript expiringAnswers) rfl
    ⟨rfl, rfl⟩
  rw [hconnect] at hforgets
  let c : Privileged := .create Session.creationWithPin
  obtain ⟨token, t, hauth, htoken, -, hover⟩ := Ctap2.pinAuth_scripted (.standard fun _ => Pin.pairOfOne)
    (v := .preferred) ⟨"1234"⟩ false c.clientDataHash hrest rfl hinfo hset hnone rfl
  obtain ⟨d, htransmit, -⟩ := Session.transmit_scripted (.standard fun _ => Pin.pairOfOne) hover
    (ctap2Apdu (c.message (some (token.authenticate c.clientDataHash))))
  have hp : Presents Simulated.Card.card (.standard fun _ => Pin.pairOfOne) c s token (.ok (.ok [0x38])) :=
    ⟨t, hauth, htoken, congrArg Prod.fst htransmit⟩
  have ha : AnsweredWith .pinTokenExpired (.ok (.ok [0x38])) := ⟨[], rfl⟩
  have hs : Ctap.Status.pinTokenExpired ∈ rejections := by decide
  exact not_neverAgain_of_cached (pinToken_of_rejection hp ha hs) (hforgets [] c token _ _ hp ha hs)

end SecurityKey.Fido
