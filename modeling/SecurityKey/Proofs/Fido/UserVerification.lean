import SecurityKey.Proofs.Fido.Issuance

/-!
# Verification of the user

A command of a relying party says whether the user has to be verified. The host sees to it:

- `Authorised`: by which code a request may be authorised, if by any;
- `Conduct`: what is said for a command after the connection (`says_execute`);
- `userVerification_enforced`: where verification is required, the requests that need it carry the code of a token,
  and nothing is said in U2F that would need it; where it is discouraged, nothing is said about the PIN and no request
  carries a code.
-/

namespace SecurityKey.Fido

open Credential (UserVerification)
open Crypto (PinToken)
open Exchange (Dialogue Exchanged Recorded Serves recording)
open Session (Says conversing ctap2Apdu says_of_moves)

/-! ## Authorisation -/

/-- A message that is a request with the given authentication code, which belongs to the first PIN protocol. -/
inductive CarriesAuth (auth : Option Bytes) : Bytes → Prop
  | creation (r : Ctap.MakeCredential) (code : r.pinAuth = auth) (protocol : r.pinProtocol = auth.map fun _ => 1) :
      CarriesAuth auth r.toBytes
  | signing (r : Ctap.GetAssertion) (code : r.pinAuth = auth) (protocol : r.pinProtocol = auth.map fun _ => 1) :
      CarriesAuth auth r.toBytes

theorem CarriesAuth.isPrivileged {auth : Option Bytes} {message : Bytes} (h : CarriesAuth auth message) :
    IsPrivileged (ctap2Apdu message) := by
  cases h with
  | creation r _ _ => exact .inl (ctapKind?_ctap2Apdu .makeCredential _)
  | signing r _ _ => exact .inr (ctapKind?_ctap2Apdu .getAssertion _)

/-- How a request is authorised after what was said: by no code, or by the code of a token that was there before or
issued by what was said. -/
inductive Authorised (config : Config) (cached : Option PinToken) (hash : Bytes) (xs : List Exchanged) :
    UserVerification → Option Bytes → Prop
  | without {v : UserVerification} (h : v ≠ .required) : Authorised config cached hash xs v none
  | token {v : UserVerification} {token : PinToken} (h : v ≠ .discouraged)
      (ht : cached = some token ∨ Pin.Issued config xs token) :
      Authorised config cached hash xs v (some (token.authenticate hash))

/-- What is said to decide whether a request is authorised, and by which code. -/
structure Decides (config : Config) (cached : Option PinToken) (hash : Bytes) (v : UserVerification)
    (xs : List Exchanged) (result : Except Error (Option Bytes)) : Prop where
  pin : ∀ x ∈ xs, IsPinRequest x.command
  silent : v = .discouraged → xs = []
  authorised : ∀ auth, result = .ok auth → Authorised config cached hash xs v auth

section Decisions

variable {config : Config} {cached : Option PinToken} {hash : Bytes} {v : UserVerification} {xs : List Exchanged}

theorem Decides.refused (e : Error) : Decides config cached hash v [] (.error e) :=
  ⟨List.forall_mem_nil _, fun _ => rfl, fun _ h => by cases h⟩

theorem Decides.without (h : v ≠ .required) : Decides config cached hash v [] (.ok none) := by
  refine ⟨List.forall_mem_nil _, fun _ => rfl, fun auth hauth => ?_⟩
  obtain rfl := Except.ok.inj hauth
  exact .without h

theorem Decides.token {token : PinToken} (h : v ≠ .discouraged) (hpin : ∀ x ∈ xs, IsPinRequest x.command)
    (ht : cached = some token ∨ Pin.Issued config xs token) :
    Decides config cached hash v xs (.ok (some (token.authenticate hash))) := by
  refine ⟨hpin, fun hv => absurd hv h, fun auth hauth => ?_⟩
  obtain rfl := Except.ok.inj hauth
  exact .token h ht

end Decisions

/-- What may be said for a command. -/
inductive Conduct (config : Config) (cached : Option PinToken) (hash : Bytes) (v : UserVerification) :
    List Exchanged → Prop
  /-- No authorisation. -/
  | refused {xs : List Exchanged} {e : Error} (h : Decides config cached hash v xs (.error e)) :
      Conduct config cached hash v xs
  /-- The request with its authorisation. -/
  | request {xs : List Exchanged} {auth : Option Bytes} {message : Bytes}
      (h : Decides config cached hash v xs (.ok auth)) (hm : CarriesAuth auth message)
      (answer : Except Error Apdu.Response) : Conduct config cached hash v (xs ++ [⟨ctap2Apdu message, answer⟩])
  /-- U2F commands. -/
  | u2f {xs : List Exchanged} (hcla : ∀ x ∈ xs, x.command.cla = 0x00) (hv : v = .required → xs = []) :
      Conduct config cached hash v xs

namespace Ctap2

variable {σ : Type} {card : Card σ} {config : Config}

theorem says_pinAuth (v : UserVerification) (pin : Option Pin) (lastAttemptOk : Bool) (hash : Bytes) (s : Session σ) :
    Says card config (pinAuth card config v pin lastAttemptOk hash) s (Decides config s.pinToken hash v) := by
  rcases hr : pinAuth card config v pin lastAttemptOk hash s with ⟨r, t⟩
  unfold Says
  rw [hr]
  cases authorisation_of_pinAuth hr with
  | without hv => exact ⟨[], .nil _, .without hv⟩
  | refused e => exact ⟨[], .nil _, .refused e⟩
  | cached hv h =>
    exact ⟨[], .nil _, .token hv (List.forall_mem_nil _) (.inl h)⟩
  | @failed _ given _ e hv _ h =>
    have hsays : Says card config _ s _ := Pin.says_getPinToken given lastAttemptOk s
    unfold Says at hsays
    rw [h] at hsays
    obtain ⟨xs, hx, hpin, -⟩ := hsays
    exact ⟨xs, hx, hpin, fun h => absurd h hv, fun _ h => by cases h⟩
  | @issued _ given _ token hv _ h =>
    have hsays : Says card config _ s _ := Pin.says_getPinToken given lastAttemptOk s
    unfold Says at hsays
    rw [h] at hsays
    obtain ⟨xs, hx, hpin, hissued⟩ := hsays
    exact ⟨xs, hx, .token hv hpin (.inr (hissued token rfl))⟩

/-- A request that may carry an authentication code is one exchange. -/
theorem says_privilegedRequest (message : Bytes) (s : Session σ) :
    Says card config (privilegedRequest card config message) s fun xs _ =>
      ∃ answer, xs = [⟨ctap2Apdu message, answer⟩] := by
  have hbody : Says card config (Action.observe (Session.ctap2RequestBody card config message)) s
      fun xs (_ : Except Error _) => ∃ answer, xs = [⟨ctap2Apdu message, answer⟩] :=
    Session.says_ctap2RequestBody card config message s
  refine hbody.bind (fun _ _ h => h) ?_
  rintro t xs (e | body) - ⟨answer, rfl⟩
  · refine .quiet ?_ ⟨answer, rfl⟩
    dsimp only
    split <;> rfl
  · exact .quiet rfl ⟨answer, rfl⟩

/-- A request is sent once it is decided how it is authorised. -/
theorem says_authorised {v : UserVerification} {pin : Option Pin} {lastAttemptOk : Bool} {hash : Bytes}
    {message : Option Bytes → Bytes} (hm : ∀ auth, CarriesAuth auth (message auth)) {α : Type}
    {finish : Cbor.Value → Action (Session σ) Error α} (hfinish : ∀ body t, (finish body t).2 = t) (s : Session σ) :
    Says card config (do
      let auth ← pinAuth card config v pin lastAttemptOk hash
      let body ← privilegedRequest card config (message auth)
      finish body) s fun xs _ => Conduct config s.pinToken hash v xs := by
  refine (says_pinAuth v pin lastAttemptOk hash s).bind (fun xs e h => .refused h) ?_
  intro t xs auth _ h
  refine (says_privilegedRequest (message auth) t).bind ?_ ?_
  · rintro ys e ⟨answer, rfl⟩
    exact .request h (hm auth) answer
  · rintro u ys body - ⟨answer, rfl⟩
    refine .quiet (congrArg Session.card (hfinish body u)) ?_
    rw [List.append_nil]
    exact .request h (hm auth) answer

theorem says_makeCredential (c : Creation) (s : Session σ) : Says card config (makeCredential card config c) s
    fun xs _ => Conduct config s.pinToken c.clientDataHash.val c.userVerification xs := by
  have hm : ∀ auth, CarriesAuth auth (creationRequest c auth).toBytes := fun auth => .creation _ rfl rfl
  refine says_authorised hm (fun body t => ?_) s
  rw [Action.run_bind]
  cases Credential.Attestation.ofValue body <;> rfl

theorem says_getAssertion (c : Signing) (s : Session σ) : Says card config (getAssertion card config c) s
    fun xs _ => Conduct config s.pinToken c.clientDataHash.val c.userVerification xs := by
  have hm : ∀ auth, CarriesAuth auth (signingRequest c auth).toBytes := fun auth => .signing _ rfl rfl
  unfold getAssertion
  refine .get_bind ?_
  split
  · exact .quiet rfl (.refused (.refused (.unsupported "authenticator does not support resident keys")))
  · refine says_authorised hm (fun body t => ?_) s
    rw [Action.run_bind]
    cases Ctap.Assertion.ofValue body <;> rfl

end Ctap2

/-- What a command asks for about the user, and what is signed for it. -/
def Command.demands? : Command → Option (UserVerification × Bytes.Sized 32)
  | create c => some (c.userVerification, c.clientDataHash)
  | sign s => some (s.userVerification, s.clientDataHash)
  | info => none

section Execution

variable {σ : Type} {card : Card σ} {config : Config}

/-- A session that speaks U2F says nothing where the user has to be verified. -/
theorem says_u2f {α : Type} {v : UserVerification} {f : Unit → Action (Session σ) Error α}
    (h : Action.Moves (conversing card config.chunkSize (·.cla = 0x00))
      (Action.ofExcept id (U2f.rejectUserVerification v) >>= f))
    (cached : Option PinToken) (hash : Bytes) (s : Session σ) :
    Says card config (Action.ofExcept id (U2f.rejectUserVerification v) >>= f) s
      fun xs _ => Conduct config cached hash v xs := by
  by_cases hv : v = .required
  · have hrun := U2f.run_rejected hv f s
    refine .quiet (by rw [hrun]) ?_
    exact .u2f (List.forall_mem_nil _) fun _ => rfl
  · exact (says_of_moves h).mono fun xs _ hx => .u2f hx fun h => absurd h hv

/-- What may be said for a command, by what it asks for about the user. -/
def Accords (config : Config) (cached : Option PinToken) (c : Command) (xs : List Exchanged) : Prop :=
  ∀ v hash, c.demands? = some (v, hash) → Conduct config cached hash.val v xs

theorem Accords.of_conduct {cached : Option PinToken} {c : Command} {xs : List Exchanged} {v : UserVerification}
    {hash : Bytes.Sized 32} (hd : c.demands? = some (v, hash)) (h : Conduct config cached hash.val v xs) :
    Accords config cached c xs := by
  intro v' hash' hd'
  cases hd.symm.trans hd'
  exact h

theorem Accords.nil (cached : Option PinToken) (c : Command) : Accords config cached c [] :=
  fun _ _ _ => .u2f (List.forall_mem_nil _) fun _ => rfl

/-- What is said for a command once there is a connection. -/
theorem says_operation (o : Operation) (c : Command) (s : Session σ) :
    Says card config (o.execute card config c) s fun xs _ => Accords config s.pinToken c xs := by
  cases c with
  | create c =>
    cases o with
    | ctap2MakeCredential => exact (Ctap2.says_makeCredential c s).map.mono fun _ _ h => .of_conduct rfl h
    | ctap1MakeCredential =>
      have hmoves := U2f.moves_makeCredential (Session.permits_conversing card config) c
      have h := says_u2f hmoves s.pinToken c.clientDataHash.val s
      exact h.map.mono fun _ _ h => .of_conduct rfl h
    | _ => exact .quiet rfl (.nil _ _)
  | sign c =>
    cases o with
    | ctap2GetAssertion => exact (Ctap2.says_getAssertion c s).map.mono fun _ _ h => .of_conduct rfl h
    | ctap1GetAssertion =>
      have hmoves := U2f.moves_getAssertion (Session.permits_conversing card config) c
      have h := says_u2f hmoves s.pinToken c.clientDataHash.val s
      exact h.map.mono fun _ _ h => .of_conduct rfl h
    | _ => exact .quiet rfl (.nil _ _)
  | info =>
    have hany : ∀ xs, Accords config s.pinToken .info xs := fun _ _ _ h => nomatch h
    cases o with
    | ctap2GetInfo =>
      have h : Says card config (Ctap2.getInfo card config) s fun xs _ => Accords config s.pinToken .info xs :=
        (Session.says_ctap2RequestBody card config _ s).bind (fun xs _ _ => hany xs)
          fun _ _ _ _ _ => .quiet rfl (hany _)
      exact h.map
    | _ => exact .quiet rfl (hany _)

/-- A command takes a connection, and then what may be said for it. -/
theorem says_execute (c : Command) (s : Session σ) : Says card config (execute card config c) s fun xs _ =>
    ∃ greetings ys, xs = greetings ++ ys ∧ (∀ x ∈ greetings, Session.Greets x.command) ∧
      Accords config s.pinToken c ys := by
  obtain ⟨greetings, hx, hgreets, htoken⟩ := Session.dialogue_connect card config s
  have hconnect : Says card config (Session.connect card config) s fun xs _ => xs = greetings := ⟨_, hx, rfl⟩
  refine hconnect.bind ?_ ?_
  · rintro xs e rfl
    exact ⟨xs, [], (List.append_nil _).symm, hgreets, .nil _ _⟩
  rintro t xs ⟨⟩ hrun rfl
  have ht : t.pinToken = s.pinToken := by
    rw [hrun] at htoken
    exact htoken rfl
  refine .get_bind (.ofExcept_bind (fun e => ⟨xs, [], rfl, hgreets, .nil _ _⟩) fun o _ => ?_)
  refine (says_operation o c t).mono fun ys r h => ⟨xs, ys, rfl, hgreets, ?_⟩
  rwa [ht] at h

end Execution

/-! ## What is enforced -/

/-- A U2F registration or authentication, whatever its class. -/
def IsU2fRequest (c : Apdu.Command) : Prop := c.ins = 0x01 ∨ c.ins = 0x02

/-- Every privileged request carries the code of a token that was there at first or was issued before the request. -/
def Verified (config : Config) (cached : Option PinToken) (hash : Bytes) (xs : List Exchanged) : Prop :=
  ∀ before x, before ++ [x] <+: xs → IsPrivileged x.command →
    ∃ token, (cached = some token ∨ Pin.Issued config before token) ∧
      CarriesAuth (some ((Crypto.Hmac.authenticate token.key.contents hash).take 16)) x.command.data

/-- Nothing is said about the PIN, and no privileged request carries a code. -/
def Unverified (xs : List Exchanged) : Prop :=
  ∀ x ∈ xs, ¬ IsPinRequest x.command ∧ (IsPrivileged x.command → CarriesAuth none x.command.data)

section Enforcement

variable {σ : Type} {config : Config} {cached : Option PinToken} {hash : Bytes} {xs ys : List Exchanged}

theorem verified_of_plain (h : ∀ x ∈ xs, ¬ IsPrivileged x.command) : Verified config cached hash xs := by
  intro before x hx hp
  exact absurd hp (h x (hx.subset (List.mem_append_right _ (List.mem_singleton_self x))))

theorem Verified.concat (h : Verified config cached hash xs) {token : PinToken} {message : Bytes}
    (ht : cached = some token ∨ Pin.Issued config xs token)
    (hm : CarriesAuth (some (token.authenticate hash)) message) (answer : Except Error Apdu.Response) :
    Verified config cached hash (xs ++ [⟨ctap2Apdu message, answer⟩]) := by
  intro before x hx hp
  rcases List.prefix_concat_iff.mp hx with heq | hx
  · obtain ⟨rfl, rfl⟩ := List.append_singleton_inj.mp heq
    exact ⟨token, ht, hm⟩
  · exact h before x hx hp

/-- Commands of class zero are no CTAP2 messages. -/
theorem plain_of_cla {c : Apdu.Command} (h : c.cla = 0x00) : ¬ IsPrivileged c ∧ ¬ IsPinRequest c := by
  have hk : ctapKind? c = none := by simp [ctapKind?, h]
  simp [IsPrivileged, IsPinRequest, hk]

/-- A CTAP2 message is no U2F request. -/
theorem not_isU2fRequest_ctap2Apdu (message : Bytes) : ¬ IsU2fRequest (ctap2Apdu message) := by
  rintro (h | h) <;> cases h

theorem plain_of_greets {c : Apdu.Command} (h : Session.Greets c) :
    ¬ IsPrivileged c ∧ ¬ IsPinRequest c ∧ ¬ IsU2fRequest c := by
  cases h with
  | select aid =>
    obtain ⟨hp, hpin⟩ := plain_of_cla (c := .select aid) rfl
    exact ⟨hp, hpin, by rintro (h | h) <;> cases h⟩
  | version =>
    obtain ⟨hp, hpin⟩ := plain_of_cla (c := (Apdu.Command.header 0x00 0x03 0x00 0x00).withNe 256) rfl
    exact ⟨hp, hpin, by rintro (h | h) <;> cases h⟩
  | info =>
    have hk := ctapKind?_ctap2Apdu .getInfo none
    refine ⟨?_, ?_, not_isU2fRequest_ctap2Apdu _⟩
    · simp [IsPrivileged, hk]
    · simp [IsPinRequest, hk]

/-- Where the user has to be verified, privileged requests are, and there are no U2F requests. -/
theorem Conduct.verified (h : Conduct config cached hash .required ys) (hx : ∀ x ∈ xs, ¬ IsPrivileged x.command) :
    Verified config cached hash (xs ++ ys) ∧ ∀ y ∈ ys, ¬ IsU2fRequest y.command := by
  have hplain : ∀ zs : List Exchanged, (∀ z ∈ zs, IsPinRequest z.command) →
      Verified config cached hash (xs ++ zs) ∧ ∀ z ∈ zs, ¬ IsU2fRequest z.command := by
    intro zs hz
    refine ⟨verified_of_plain (List.forall_mem_append.mpr ⟨hx, fun z hm => (hz z hm).not_isPrivileged⟩), ?_⟩
    intro z hm hu
    have hins := ins_of_ctapKind? (hz z hm)
    rcases hu with hu | hu
    all_goals
      rw [hins] at hu
      cases hu
  cases h with
  | refused h => exact hplain ys h.pin
  | @request zs auth message h hm answer =>
    obtain ⟨hverified, hu⟩ := hplain zs h.pin
    cases h.authorised auth rfl with
    | without hv => exact absurd rfl hv
    | token _ ht =>
      rw [← List.append_assoc]
      refine ⟨hverified.concat (ht.imp_right fun hi => hi.append_left xs) hm answer, ?_⟩
      refine List.forall_mem_append.mpr ⟨hu, fun y hy => ?_⟩
      rw [List.mem_singleton.mp hy]
      exact not_isU2fRequest_ctap2Apdu message
  | u2f _ hv =>
    rw [hv rfl]
    exact hplain [] (List.forall_mem_nil _)

/-- Where the verification of the user is discouraged, nothing is said for it. -/
theorem Conduct.unverified (h : Conduct config cached hash .discouraged ys) : Unverified ys := by
  cases h with
  | refused h =>
    rw [h.silent rfl]
    exact List.forall_mem_nil _
  | @request zs auth message h hm answer =>
    rw [h.silent rfl]
    intro x hx
    obtain rfl := List.mem_singleton.mp hx
    cases h.authorised auth rfl with
    | without _ => exact ⟨fun hpin => hpin.not_isPrivileged hm.isPrivileged, fun _ => hm⟩
    | token hv _ => exact absurd rfl hv
  | u2f hcla _ =>
    intro y hy
    obtain ⟨hp, hpin⟩ := plain_of_cla (hcla y hy)
    exact ⟨hpin, fun h => absurd h hp⟩

/-- An APDU that serves no U2F request is none. -/
theorem not_isU2fRequest_of_serves {c a : Apdu.Command} (h : ¬ IsU2fRequest c) (ha : Serves c a) :
    ¬ IsU2fRequest a := by
  cases ha with
  | part _ hins _ _ _ => rwa [IsU2fRequest, hins]
  | more available => rintro (h | h) <;> cases h

end Enforcement

/-- Whatever the state of the connection and the behaviour of the card: what is sent for a command belongs to whole
exchanges. Where the command requires that the user is verified, every privileged request among them carries the code
of a token that was cached at first or issued before, and no APDU is a U2F request. Where it discourages that, nothing
is said about the PIN and no request carries a code. -/
theorem userVerification_enforced {σ : Type} (card : Card σ) (config : Config) (c : Command)
    (s : Session (Recorded σ)) :
    ∃ xs apdus, Dialogue (recording card) config.chunkSize s.card xs (execute (recording card) config c s).2.card ∧
      (execute (recording card) config c s).2.card.sent = s.card.sent ++ apdus ∧
      (∀ a ∈ apdus, ∃ x ∈ xs, Serves x.command a) ∧
      (∀ hash, c.demands? = some (.required, hash) →
        Verified config s.pinToken hash.val xs ∧ ∀ a ∈ apdus, ¬ IsU2fRequest a) ∧
      ∀ hash, c.demands? = some (.discouraged, hash) → Unverified xs := by
  have hexecute : Says (recording card) config (execute (recording card) config c) s _ := says_execute c s
  obtain ⟨_, hx, greetings, ys, rfl, hgreets, haccords⟩ := hexecute
  obtain ⟨apdus, hsent, hserves⟩ := hx.sent
  refine ⟨_, apdus, hx, hsent, hserves, ?_, ?_⟩
  · intro hash hd
    have hplain : ∀ x ∈ greetings, ¬ IsPrivileged x.command := fun x hm => (plain_of_greets (hgreets x hm)).1
    obtain ⟨hverified, hu2f⟩ := (haccords _ hash hd).verified hplain
    refine ⟨hverified, fun a ha => ?_⟩
    obtain ⟨x, hm, hs⟩ := hserves a ha
    refine not_isU2fRequest_of_serves ?_ hs
    rcases List.mem_append.mp hm with hm | hm
    · exact (plain_of_greets (hgreets x hm)).2.2
    · exact hu2f x hm
  · intro hash hd x hm
    rcases List.mem_append.mp hm with hm | hm
    · obtain ⟨hp, hpin, -⟩ := plain_of_greets (hgreets x hm)
      exact ⟨hpin, fun h => absurd h hp⟩
    · exact (haccords _ hash hd).unverified x hm

end SecurityKey.Fido
