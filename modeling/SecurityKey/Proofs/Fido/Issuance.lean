import SecurityKey.Proofs.Fido.Conversation
import SecurityKey.Proofs.Fido.PinRuns

/-!
# How a token is issued

- `ctapKind?` tells what kind of CTAP2 message an APDU carries;
- the result of a PIN request is read from the answer (`Pin.readAnswer`), and so is an agreement (`Pin.agreement?`,
  `Pin.says_agreement`);
- `Pin.Issuance` says what an authenticator answers when it issues a token, `Pin.Issued` that it did so in the course
  of some exchanges;
- a token that the host has got was issued by what was said for it (`Pin.says_getPinToken`).
-/

namespace SecurityKey.Fido

open Credential (PublicKey)
open Crypto (PinToken)
open Exchange (Exchanged)
open Session (Says conversing ctap2Apdu says_ctap2Request says_of_moves)

/-! ## Kinds of commands -/

/-- The kind of CTAP2 message that an APDU carries. -/
def ctapKind? (c : Apdu.Command) : Option Ctap.Command :=
  if c.cla = 0x80 ∧ c.ins = 0x10 then c.data.head?.bind Ctap.Command.ofByte? else none

theorem ctapKind?_ctap2Apdu (k : Ctap.Command) (v : Option Cbor.Value) :
    ctapKind? (ctap2Apdu (Ctap.request k v)) = some k := by
  cases k <;> rfl

theorem ins_of_ctapKind? {c : Apdu.Command} {k : Ctap.Command} (h : ctapKind? c = some k) : c.ins = 0x10 := by
  unfold ctapKind? at h
  split at h
  · rename_i hc
    exact hc.2
  · cases h

/-- The requests that the user may have to be verified for. -/
def IsPrivileged (c : Apdu.Command) : Prop :=
  ctapKind? c = some .makeCredential ∨ ctapKind? c = some .getAssertion

/-- A request about the PIN. -/
def IsPinRequest (c : Apdu.Command) : Prop := ctapKind? c = some .clientPin

theorem IsPinRequest.not_isPrivileged {c : Apdu.Command} (h : IsPinRequest c) : ¬ IsPrivileged c := by
  rintro (hp | hp)
  all_goals
    rw [h] at hp
    cases hp

/-! ## PIN requests and agreements -/

/-- No key pairs are made up. -/
def Session.keepingKeys (σ : Type) : Movement (Session σ) where
  rel s t := t.keysMade = s.keysMade
  refl _ := rfl
  trans h h' := h'.trans h

theorem Session.permits_keepingKeys {σ : Type} (card : Card σ) (config : Config) :
    Session.Permits card config (Session.keepingKeys σ) fun _ => True :=
  fun _ _ _ => rfl

namespace Pin

variable {σ : Type} {card : Card σ} {config : Config} {secret : Option Bytes}

/-- What is read from the answer to a PIN request. -/
def readAnswer (answer : Except Error Apdu.Response) : Except Error Ctap.PinResponse := do
  let body ← Session.ctap2Answer answer
  (Ctap.PinResponse.ofValue? body).mapError Error.ofCbor

/-- The result of a PIN request is read from the whole answer. -/
theorem request_of_transmit {r : Ctap.ClientPin} {s t : Session σ} {answer : Except Error Apdu.Response}
    (h : Session.transmit card config (ctap2Apdu r.toBytes) s = (answer, t)) :
    request card config r s = (readAnswer answer, t) := by
  unfold request readAnswer
  rw [Action.run_bind, Session.ctap2Request_of_transmit h]
  cases Session.ctap2Answer answer <;> rfl

theorem says_request (r : Ctap.ClientPin) (s : Session σ) :
    Says card config (request card config r) s fun xs result =>
      ∃ answer, xs = [⟨ctap2Apdu r.toBytes, answer⟩] ∧ result = readAnswer answer := by
  unfold Says
  rw [request_of_transmit rfl]
  exact ⟨_, Session.dialogue_transmit card config _ s, _, rfl, rfl⟩

/-- The agreement with the key in an answer, for which the host takes the given secret or its next key pair. -/
def agreement? (config : Config) (secret : Option Bytes) (made : Nat) (answer : Except Error Apdu.Response) :
    Option Agreement := do
  let r ← (readAnswer answer).toOption
  let device ← r.keyAgreement
  (pairFrom config secret made >>= (agreementWith · device)).toOption

theorem agreement?_eq_some_iff {made : Nat} {answer : Except Error Apdu.Response} {a : Agreement} :
    agreement? config secret made answer = some a ↔ ∃ r device k, readAnswer answer = .ok r ∧
      r.keyAgreement = some device ∧ pairFrom config secret made = .ok k ∧ agreementWith k device = .ok a := by
  constructor
  · intro h
    simp only [agreement?, Option.bind_eq_bind, Option.bind_eq_some_iff] at h
    obtain ⟨r, hread, device, hdevice, ha⟩ := h
    obtain ⟨k, hk, hwith⟩ := Action.bind_eq_ok_iff.mp (Action.eq_ok_of_toOption ha)
    exact ⟨r, device, k, Action.eq_ok_of_toOption hread, hdevice, hk, hwith⟩
  · rintro ⟨r, device, k, hread, hdevice, hk, hwith⟩
    have hpair : (pairFrom config secret made >>= (agreementWith · device)) = .ok a :=
      Action.bind_eq_ok_iff.mpr ⟨k, hk, hwith⟩
    simp only [agreement?, hread, Except.toOption, Option.bind_eq_bind, Option.bind_some, hdevice, hpair]

/-- The agreement that an answer leads to. -/
theorem run_takePair (device : PublicKey) (s : Session σ) :
    (do
      let k ← hostPair config secret
      Action.ofExcept Error.ofCrypto (agreementWith k device) : Action (Session σ) Error Agreement) s =
      ((pairFrom config secret s.keysMade >>= (agreementWith · device)).mapError Error.ofCrypto, s.drew secret) := by
  rw [Action.run_bind, run_hostPair]
  cases pairFrom config secret s.keysMade <;> rfl

/-- An agreement asks for the authenticator's key. -/
theorem says_agreement (s : Session σ) : Says card config (agree card config secret) s fun xs result =>
    ∃ answer, xs = [⟨ctap2Apdu (Ctap.ClientPin.getKeyAgreement protocol).toBytes, answer⟩] ∧
      result.toOption = agreement? config secret s.keysMade answer := by
  refine (says_request _ s).bind ?_ ?_
  · rintro xs e ⟨answer, rfl, h⟩
    refine ⟨answer, rfl, ?_⟩
    rw [agreement?, ← h]
    rfl
  · rintro t xs r hrun ⟨answer, rfl, h⟩
    have hkeys : t.keysMade = s.keysMade := by
      have hmoves := moves_request (Session.permits_keepingKeys card config) (fun _ => trivial)
        (.getKeyAgreement protocol) s
      rwa [hrun] at hmoves
    have hagreement : agreement? config secret s.keysMade answer = r.keyAgreement.bind fun device =>
        (pairFrom config secret t.keysMade >>= (agreementWith · device)).toOption := by
      rw [agreement?, ← h, hkeys]
      rfl
    cases hkey : r.keyAgreement with
    | none => exact .quiet rfl ⟨answer, rfl, by rw [hagreement, hkey]; rfl⟩
    | some device =>
      rw [hkey] at hagreement
      unfold Says
      simp only [run_takePair]
      refine ⟨[], ?_, answer, rfl, (Action.toOption_mapError ..).trans hagreement.symm⟩
      rw [Session.card_drew]
      exact .nil _

end Pin

/-! ## Tokens -/

namespace Pin

variable {σ : Type} (card : Card σ) (config : Config)

/-- How a device issues a token: it answers with its key, and to a request that names the host's key of the
agreement it answers with the token, encrypted under the session key. -/
structure Issuance (config : Config) (token : PinToken) where
  keyAnswer : Except Error Apdu.Response
  keyResponse : Ctap.PinResponse
  key_read : readAnswer keyAnswer = .ok keyResponse
  device : PublicKey
  key_given : keyResponse.keyAgreement = some device
  /-- Which of the host's key pairs is used. -/
  made : Nat
  agreement : Agreement
  agreed : agreementWith (config.freshKey made) device = .ok agreement
  pinHashEnc : Bytes
  tokenAnswer : Except Error Apdu.Response
  tokenResponse : Ctap.PinResponse
  token_read : readAnswer tokenAnswer = .ok tokenResponse
  encrypted : Bytes
  token_given : tokenResponse.pinToken = some encrypted
  decrypted : PinToken.decrypt agreement.sessionKey encrypted = .ok token

/-- The exchanges of an issuance. -/
def Issuance.exchanges {config : Config} {token : PinToken} (i : Issuance config token) : List Exchanged :=
  [⟨ctap2Apdu (Ctap.ClientPin.getKeyAgreement protocol).toBytes, i.keyAnswer⟩,
    ⟨ctap2Apdu (Ctap.ClientPin.getPinToken protocol i.agreement.hostKey i.pinHashEnc).toBytes, i.tokenAnswer⟩]

/-- A token that was issued in the course of exchanges. -/
def Issued (config : Config) (xs : List Exchanged) (token : PinToken) : Prop :=
  ∃ i : Issuance config token, i.exchanges.Sublist xs

variable {card config}

theorem Issued.append_left {xs : List Exchanged} {token : PinToken} (h : Issued config xs token)
    (ys : List Exchanged) : Issued config (ys ++ xs) token := by
  obtain ⟨i, hi⟩ := h
  exact ⟨i, hi.trans (List.sublist_append_right ys xs)⟩

theorem says_submit (before : UInt8) (r : Ctap.ClientPin) (s : Session σ) :
    Says card config (submit card config before r) s fun xs result =>
      ∃ answer, xs = [⟨ctap2Apdu r.toBytes, answer⟩] ∧
        result = (readAnswer answer).mapError (wrongPinError before) := by
  have hr : Says card config (request card config r) s _ := says_request r s
  obtain ⟨xs, hx, answer, hxs, h⟩ := hr
  refine ⟨xs, hx, answer, hxs, ?_⟩
  rw [← h]
  rfl

/-- Every PIN request is one. -/
theorem isPinRequest_toBytes (r : Ctap.ClientPin) : IsPinRequest (ctap2Apdu r.toBytes) :=
  ctapKind?_ctap2Apdu .clientPin _

/-- What an agreement with a new key pair is made of. -/
theorem says_agree (s : Session σ) : Says card config (agree card config none) s fun xs result =>
    ∃ answer, xs = [⟨ctap2Apdu (Ctap.ClientPin.getKeyAgreement protocol).toBytes, answer⟩] ∧
      ∀ a, result = .ok a → ∃ response device n, readAnswer answer = .ok response ∧
        response.keyAgreement = some device ∧ agreementWith (config.freshKey n) device = .ok a := by
  refine (says_agreement s).mono fun xs result => ?_
  rintro ⟨answer, rfl, h⟩
  refine ⟨answer, rfl, fun a ha => ?_⟩
  rw [ha] at h
  obtain ⟨response, device, k, hread, hdevice, hk, hagreed⟩ := agreement?_eq_some_iff.mp h.symm
  cases hk
  exact ⟨response, device, s.keysMade, hread, hdevice, hagreed⟩

/-- What is said for a token after an agreement. -/
theorem says_token (before : UInt8) (a : Agreement) (pin : Pin) (s : Session σ) :
    Says card config (do
      let pinHashEnc ← Action.ofExcept Error.ofCrypto (Crypto.PinProtocol.pinHashEnc a.sessionKey pin.text)
      let r ← submit card config before (.getPinToken protocol a.hostKey pinHashEnc)
      match r.pinToken with
      | none => throw (.protocol "getPINToken response without token")
      | some encrypted => Action.ofExcept Error.ofCrypto (PinToken.decrypt a.sessionKey encrypted)) s fun xs result =>
      (∀ x ∈ xs, IsPinRequest x.command) ∧ ∀ token, result = .ok token → ∃ pinHashEnc answer response encrypted,
        xs = [⟨ctap2Apdu (Ctap.ClientPin.getPinToken protocol a.hostKey pinHashEnc).toBytes, answer⟩] ∧
        readAnswer answer = .ok response ∧ response.pinToken = some encrypted ∧
        PinToken.decrypt a.sessionKey encrypted = .ok token := by
  have hpin : ∀ (r : Ctap.ClientPin) (answer : Except Error Apdu.Response),
      ∀ x ∈ [Exchanged.mk (ctap2Apdu r.toBytes) answer], IsPinRequest x.command := by
    intro r answer x hx
    rw [List.mem_singleton.mp hx]
    exact isPinRequest_toBytes r
  refine .ofExcept_bind (fun e => ⟨List.forall_mem_nil _, fun _ h => by cases h⟩) fun pinHashEnc _ => ?_
  refine (says_submit before _ s).bind ?_ ?_
  · rintro xs e ⟨answer, rfl, -⟩
    exact ⟨hpin _ answer, fun _ h => by cases h⟩
  · rintro u xs response - ⟨answer, rfl, h⟩
    cases htoken : response.pinToken with
    | none => exact .quiet rfl ⟨hpin _ answer, fun _ h => by cases h⟩
    | some encrypted =>
      refine .quiet rfl ⟨hpin _ answer, fun token hok => ?_⟩
      exact ⟨pinHashEnc, answer, response, encrypted, rfl, Action.eq_ok_of_mapError h.symm, htoken,
        Action.eq_ok_of_mapError hok⟩

/-- Whatever is said to get a token is about the PIN, and a token that is got was issued by what was said. -/
theorem says_getPinToken (pin : Pin) (lastAttemptOk : Bool) (s : Session σ) :
    Says card config (getPinToken card config none pin lastAttemptOk) s fun xs result =>
      (∀ x ∈ xs, IsPinRequest x.command) ∧ ∀ token, result = .ok token → Issued config xs token := by
  refine (says_of_moves (moves_checkRetries (Session.permits_conversing card config) isPinRequest_toBytes
    lastAttemptOk)).bind ?_ ?_
  · exact fun xs e h => ⟨h, fun _ h => nomatch h⟩
  rintro t first retries - hfirst
  refine (says_agree t).bind ?_ ?_
  · rintro _ e ⟨keyAnswer, rfl, -⟩
    refine ⟨List.forall_mem_append.mpr ⟨hfirst, ?_⟩, fun _ h => nomatch h⟩
    exact List.forall_mem_singleton.mpr (isPinRequest_toBytes _)
  rintro u _ a - ⟨keyAnswer, rfl, hagreed⟩
  refine (says_token retries a pin u).mono fun ys result ⟨hpin, htoken⟩ => ⟨?_, fun token hok => ?_⟩
  · refine List.forall_mem_append.mpr ⟨hfirst, List.forall_mem_append.mpr ⟨?_, hpin⟩⟩
    exact List.forall_mem_singleton.mpr (isPinRequest_toBytes _)
  · obtain ⟨response, device, n, hread, hdevice, hagreement⟩ := hagreed a rfl
    obtain ⟨pinHashEnc, answer, tokenResponse, encrypted, rfl, hanswer, hgiven, hdecrypted⟩ := htoken token hok
    exact ⟨⟨keyAnswer, response, hread, device, hdevice, n, a, hagreement, pinHashEnc, answer, tokenResponse, hanswer,
      encrypted, hgiven, hdecrypted⟩, List.sublist_append_right ..⟩

end Pin

end SecurityKey.Fido
