import SecurityKey.Proofs.Exchange
import SecurityKey.Proofs.Fido.Exclusion
import SecurityKey.Proofs.Simulated.Card

/-!
# Assertions and the credentials they are attributed to

A U2F authenticator signs with a key handle or says that it does not know it. So the host tries the allowed key handles
one after the other, and whoever asked is told the one that signed.

- `attempts` are the attempts to be made, and `verdict?` is what an answer says of the credential;
- `Searched` lists what may be exchanged to try a list of credentials, and `SigningCourse` what may be said to sign
  (`says_getAssertion`);
- `Attributed` says what every such course keeps to (`SigningCourse.attributed`): the credential is that of the attempt
  that succeeded, which is the last one, and all before it failed by an unknown handle. `assertion_attributed` has it of
  the operation.
-/

namespace SecurityKey.Fido.U2f

open Credential (Descriptor)
open Exchange (Dialogue Exchanged Recorded Serves recording)
open Session (Says)

/-! ## Attempts and answers -/

/-- The attempt to sign with a key handle: an authentication that wants a touch. -/
def attempt (g : Signing) (keyHandle : Bytes) : Apdu.Command :=
  ((Apdu.Command.header 0x00 0x02 0x03 0x00).withData (g.clientDataHash.val ++
    Crypto.Sha256.digest (Bytes.ofString g.rpId) ++ UInt8.ofNat keyHandle.length :: keyHandle)).withNe 65536

/-- The attempts to be made for a list of credentials. -/
def attempts (g : Signing) (listed : List Descriptor) : List Apdu.Command := (sendable listed).map (attempt g)

/-- A card does not know the key handle it was asked about. -/
def Unknown (x : Exchanged) : Prop := ∃ r, x.answer = .ok r ∧ r.sw = .wrongData

/-- What an answer to an attempt says of the credential. A wrong handle says nothing of it. -/
def verdict? (g : Signing) (d : Descriptor) (answer : Except Error Apdu.Response) :
    Option (Except Error PublicKeyCredential) :=
  match answer with
  | .error e => some (.error e)
  | .ok r =>
    if r.sw = .wrongData then none
    else if r.isSuccess then some (authenticated (appId g.rpId) d r.data)
    else some (.error (.ofFidoStatus r.sw))

section Verdict

variable {g : Signing} {d : Descriptor} {answer : Except Error Apdu.Response}

theorem verdict?_eq_none_iff : verdict? g d answer = none ↔ ∃ r, answer = .ok r ∧ r.sw = .wrongData := by
  cases answer with
  | error e => simp [verdict?]
  | ok r =>
    simp only [verdict?, Except.ok.injEq, exists_eq_left']
    split
    · simp [*]
    · split <;> simp [*]

/-- A credential is made of the key handle that was tried and of an answer that is long enough. -/
theorem of_verdict?_ok {c : PublicKeyCredential} (h : verdict? g d answer = some (.ok c)) :
    ∃ r, answer = .ok r ∧ r.sw = .success ∧ 5 < r.data.length ∧ c = ⟨d.id, .assertion
      (Crypto.Sha256.digest (Bytes.ofString g.rpId) ++ r.data.take 5) (r.data.drop 5) none⟩ := by
  cases answer with
  | error e => cases h
  | ok r =>
    unfold verdict? at h
    simp only at h
    split at h
    · cases h
    split at h
    · rename_i hsuccess
      have hmade := Option.some.inj h
      unfold authenticated at hmade
      split at hmade
      · cases hmade
      · rename_i hlong
        cases hmade
        exact ⟨r, rfl, of_decide_eq_true hsuccess, Nat.lt_of_not_le hlong, rfl⟩
    · cases h

/-- The status of a refusal tells of no unknown handle but by its own status word. -/
theorem ofFidoStatus_ne_noCredentials {sw : Apdu.StatusWord} (h : sw ≠ .wrongData) :
    Error.ofFidoStatus sw ≠ .noCredentials := by
  unfold Error.ofFidoStatus
  simp only [h, if_false]
  repeat' split
  all_goals exact nofun

/-- Whatever an answer says, it does not say that there is no credential. -/
theorem verdict?_ne_noCredentials (ha : answer ≠ .error .noCredentials) :
    verdict? g d answer ≠ some (.error .noCredentials) := by
  cases answer with
  | error e =>
    intro h
    cases h
    exact ha rfl
  | ok r =>
    unfold verdict?
    simp only
    split
    · exact nofun
    rename_i hsw
    split
    · unfold authenticated
      split <;> exact nofun
    · intro h
      exact ofFidoStatus_ne_noCredentials hsw (Except.error.inj (Option.some.inj h))

end Verdict

/-! ## Searches -/

/-- What may be exchanged to try the listed credentials in order, with what result: up to the first verdict. Key handles
that cannot be sent are passed over. -/
inductive Searched (g : Signing) : List Descriptor → List Exchanged → Except Error PublicKeyCredential → Prop
  | exhausted : Searched g [] [] (.error .noCredentials)
  | oversized {d : Descriptor} {ds : List Descriptor} {xs : List Exchanged}
      {result : Except Error PublicKeyCredential} (h : ¬ d.id.length ≤ 255) (rest : Searched g ds xs result) :
      Searched g (d :: ds) xs result
  | unknown {d : Descriptor} {ds : List Descriptor} {answer : Except Error Apdu.Response} {xs : List Exchanged}
      {result : Except Error PublicKeyCredential} (h : d.id.length ≤ 255) (hv : verdict? g d answer = none)
      (rest : Searched g ds xs result) : Searched g (d :: ds) (⟨attempt g d.id, answer⟩ :: xs) result
  | settled {d : Descriptor} {ds : List Descriptor} {answer : Except Error Apdu.Response}
      {result : Except Error PublicKeyCredential} (h : d.id.length ≤ 255) (ha : answer ≠ .error .noCredentials)
      (hv : verdict? g d answer = some result) : Searched g (d :: ds) [⟨attempt g d.id, answer⟩] result

/-- All attempts for a list of credentials were made, and the card knew none of the key handles. -/
def NoneKnown (g : Signing) (listed : List Descriptor) (xs : List Exchanged) : Prop :=
  xs.map (·.command) = attempts g listed ∧ ∀ x ∈ xs, Unknown x

/-- A credential is that of one listed entry: the attempt with it succeeded and is the last thing that was said, and
all attempts for the entries in front of it failed by an unknown handle. -/
structure Credits (g : Signing) (listed : List Descriptor) (xs : List Exchanged) (c : PublicKeyCredential)
    (front : List Descriptor) (d : Descriptor) (r : Apdu.Response) : Prop where
  entry : front ++ [d] <+: listed
  short : d.id.length ≤ 255
  said : ∃ asked, xs = asked ++ [⟨attempt g d.id, .ok r⟩] ∧ NoneKnown g front asked
  accepted : r.sw = .success
  whole : 5 < r.data.length
  rawId : c.rawId = d.id
  response : c.response =
    .assertion (Crypto.Sha256.digest (Bytes.ofString g.rpId) ++ r.data.take 5) (r.data.drop 5) none

section Attempts

variable {g : Signing} {d : Descriptor} {listed front : List Descriptor} {xs : List Exchanged}

theorem attempts_cons_of_short (h : d.id.length ≤ 255) :
    attempts g (d :: listed) = attempt g d.id :: attempts g listed := by
  have hsendable : sendable (d :: listed) = d.id :: sendable listed := List.filter_cons_of_pos (decide_eq_true h)
  rw [attempts, hsendable]
  rfl

theorem attempts_cons_of_long (h : ¬ d.id.length ≤ 255) : attempts g (d :: listed) = attempts g listed := by
  have hsendable : sendable (d :: listed) = sendable listed := List.filter_cons_of_neg (by rwa [decide_eq_true_eq])
  rw [attempts, hsendable]
  rfl

theorem NoneKnown.cons_long (h : NoneKnown g front xs) (hd : ¬ d.id.length ≤ 255) : NoneKnown g (d :: front) xs :=
  ⟨h.1.trans (attempts_cons_of_long hd).symm, h.2⟩

theorem NoneKnown.cons_short (h : NoneKnown g front xs) (hd : d.id.length ≤ 255)
    {answer : Except Error Apdu.Response} (hx : Unknown ⟨attempt g d.id, answer⟩) :
    NoneKnown g (d :: front) (⟨attempt g d.id, answer⟩ :: xs) := by
  refine ⟨?_, List.forall_mem_cons.mpr ⟨hx, h.2⟩⟩
  rw [attempts_cons_of_short hd, ← h.1]
  rfl

end Attempts

section Searched

variable {g : Signing} {listed : List Descriptor} {xs : List Exchanged} {result : Except Error PublicKeyCredential}

/-- The attempts are made in the order of the list. -/
theorem Searched.isPrefix (h : Searched g listed xs result) : xs.map (·.command) <+: attempts g listed := by
  induction h with
  | exhausted => exact List.prefix_rfl
  | oversized h _ ih =>
    rw [attempts_cons_of_long h]
    exact ih
  | unknown h _ _ ih =>
    rw [attempts_cons_of_short h]
    exact List.cons_prefix_cons.mpr ⟨rfl, ih⟩
  | settled h _ _ =>
    rw [attempts_cons_of_short h]
    exact List.cons_prefix_cons.mpr ⟨rfl, List.nil_prefix⟩

/-- A credential that is found is that of the entry that signed. -/
theorem Searched.exists_credits {c : PublicKeyCredential} (h : Searched g listed xs (.ok c)) :
    ∃ front d r, Credits g listed xs c front d r := by
  generalize hr : (Except.ok c : Except Error PublicKeyCredential) = result at h
  induction h with
  | exhausted => cases hr
  | @oversized d ds xs result h _ ih =>
    obtain ⟨front, d', r, hc⟩ := ih hr
    obtain ⟨asked, hxs, hnone⟩ := hc.said
    exact ⟨d :: front, d', r, { hc with
      entry := List.cons_prefix_cons.mpr ⟨rfl, hc.entry⟩
      said := ⟨asked, hxs, hnone.cons_long h⟩ }⟩
  | @unknown d ds answer xs result h hv _ ih =>
    obtain ⟨front, d', r, hc⟩ := ih hr
    obtain ⟨asked, hxs, hnone⟩ := hc.said
    refine ⟨d :: front, d', r, { hc with
      entry := List.cons_prefix_cons.mpr ⟨rfl, hc.entry⟩
      said := ⟨⟨attempt g d.id, answer⟩ :: asked, by rw [hxs]; rfl, ?_⟩ }⟩
    exact hnone.cons_short h (verdict?_eq_none_iff.mp hv)
  | @settled d ds answer result h _ hv =>
    subst hr
    obtain ⟨r, rfl, hsuccess, hlong, rfl⟩ := of_verdict?_ok hv
    exact ⟨[], d, r, List.cons_prefix_cons.mpr ⟨rfl, List.nil_prefix⟩, h, ⟨[], rfl, rfl, List.forall_mem_nil _⟩,
      hsuccess, hlong, rfl, rfl⟩

/-- No credential is found exactly where the card knows none of the key handles. -/
theorem Searched.eq_noCredentials_iff (h : Searched g listed xs result) :
    result = .error .noCredentials ↔ NoneKnown g listed xs := by
  induction h with
  | exhausted => exact iff_of_true rfl ⟨rfl, List.forall_mem_nil _⟩
  | oversized h _ ih => rw [ih, NoneKnown, NoneKnown, attempts_cons_of_long h]
  | unknown h hv _ ih =>
    rw [ih]
    refine ⟨fun hnone => hnone.cons_short h (verdict?_eq_none_iff.mp hv), fun hnone => ?_⟩
    obtain ⟨hmap, hall⟩ := hnone
    rw [attempts_cons_of_short h] at hmap
    exact ⟨(List.cons.inj hmap).2, (List.forall_mem_cons.mp hall).2⟩
  | settled h ha hv =>
    refine iff_of_false ?_ fun hnone => ?_
    · rintro rfl
      exact verdict?_ne_noCredentials ha hv
    · rw [verdict?_eq_none_iff.mpr (hnone.2 _ (List.mem_singleton_self _))] at hv
      cases hv

end Searched

/-! ## What may be said -/

section Says

variable {σ : Type} {card : Card σ} {config : Config} (g : Signing)

/-- A key handle is tried if it can be sent. -/
theorem authenticateApdu?_signing (keyHandle : Bytes) :
    authenticateApdu? false g.clientDataHash (appId g.rpId) keyHandle =
      if keyHandle.length ≤ 255 then some (attempt g keyHandle) else none :=
  rfl

/-- An exchange never fails for want of a credential. -/
theorem says_attempt (c : Apdu.Command) (s : Session σ) : Says card config (Session.transmit card config c) s
    fun xs r => xs = [⟨c, r⟩] ∧ r ≠ .error .noCredentials := by
  refine ⟨_, Session.dialogue_transmit card config c s, rfl, fun hr => ?_⟩
  have h : Exchange.OfTransport .noCredentials := Exchange.fails_transmit card c config.chunkSize s.card _ hr
  generalize he : Error.noCredentials = e at h
  cases h with
  | link l => cases l <;> cases he
  | assembly reason => cases he

theorem says_tryHandles (listed : List Descriptor) (s : Session σ) :
    Says card config (tryHandles card config g.clientDataHash (appId g.rpId) listed) s (Searched g listed) := by
  induction listed generalizing s with
  | nil => exact .quiet rfl .exhausted
  | cons d rest ih =>
    by_cases hd : d.id.length ≤ 255
    · rw [tryHandles, authenticateApdu?_signing, if_pos hd]
      refine (says_attempt (attempt g d.id) s).bind ?_ ?_
      · rintro xs e ⟨rfl, he⟩
        exact .settled hd he rfl
      · rintro t xs r - ⟨rfl, hr⟩
        have hverdict : verdict? g d (.ok r) = _ := rfl
        split
        · rename_i hsw
          exact (ih t).mono fun xs result h => .unknown hd (hverdict.trans (if_pos hsw)) h
        · rename_i hsw
          split
          · rename_i hsuccess
            refine .quiet rfl (.settled hd hr (hverdict.trans ((if_neg hsw).trans ((if_pos hsuccess).trans ?_))))
            cases authenticated (appId g.rpId) d r.data <;> rfl
          · rename_i hrefused
            exact .quiet rfl (.settled hd hr (hverdict.trans ((if_neg hsw).trans (if_neg hrefused))))
    · rw [tryHandles, authenticateApdu?_signing, if_neg hd]
      exact (ih s).mono fun xs result h => .oversized hd h

/-- What may be said to sign. -/
inductive SigningCourse (g : Signing) : List Exchanged → Except Error PublicKeyCredential → Prop
  | unverified (h : g.userVerification = .required) :
      SigningCourse g [] (.error (.unsupported "CTAP1 authenticators cannot verify the user"))
  | unlisted (hv : g.userVerification ≠ .required) (h : g.allow = []) :
      SigningCourse g [] (.error (.unsupported "CTAP1 has no resident keys"))
  | searched {xs : List Exchanged} {result : Except Error PublicKeyCredential}
      (hv : g.userVerification ≠ .required) (hl : g.allow ≠ []) (h : Searched g g.allow xs result) :
      SigningCourse g xs result

theorem says_getAssertion (s : Session σ) : Says card config (getAssertion card config g) s (SigningCourse g) := by
  by_cases hv : g.userVerification = .required
  · refine .quiet ?_ ?_
    · rw [getAssertion, run_rejected hv]
    · rw [getAssertion, run_rejected hv]
      exact .unverified hv
  have haccepted : rejectUserVerification g.userVerification = .ok () := if_neg hv
  unfold getAssertion
  rw [haccepted]
  refine .of_run (Action.bind_of_ok (Action.run_ofExcept_ok ..) _) rfl ?_
  by_cases hl : g.allow = []
  · refine .quiet ?_ ?_
    all_goals rw [hl]
    · rfl
    · exact .unlisted hv hl
  · have hlisted : g.allow.isEmpty = false := by simpa using hl
    simp only [hlisted]
    exact (says_tryHandles g g.allow s).mono fun xs result h => .searched hv hl h

end Says

/-! ## What every course keeps to -/

/-- How an assertion is attributed. -/
structure Attributed (g : Signing) (xs : List Exchanged) (result : Except Error PublicKeyCredential) : Prop where
  /-- The allowed key handles are tried in the order of the list, and nothing else is said. -/
  ordered : xs.map (·.command) <+: attempts g g.allow
  /-- A credential is that of the entry that signed, behind entries that the card does not know. -/
  credited : ∀ c, result = .ok c → ∃ front d r, Credits g g.allow xs c front d r
  /-- There is no credential exactly where the user need not be verified and the card knows none of the handles. -/
  unknown : result = .error .noCredentials ↔
    g.userVerification ≠ .required ∧ g.allow ≠ [] ∧ NoneKnown g g.allow xs
  /-- Where the user has to be verified, nothing is said. -/
  unverified : g.userVerification = .required →
    xs = [] ∧ result = .error (.unsupported "CTAP1 authenticators cannot verify the user")

theorem SigningCourse.attributed {g : Signing} {xs : List Exchanged} {result : Except Error PublicKeyCredential}
    (h : SigningCourse g xs result) : Attributed g xs result := by
  cases h with
  | unverified hv => exact ⟨List.nil_prefix, nofun, iff_of_false nofun fun h => h.1 hv, fun _ => ⟨rfl, rfl⟩⟩
  | unlisted hv hl => exact ⟨List.nil_prefix, nofun, iff_of_false nofun fun h => h.2.1 hl, fun h => absurd h hv⟩
  | searched hv hl h =>
    refine ⟨h.isPrefix, ?_, ?_, fun h => absurd h hv⟩
    · rintro c rfl
      exact h.exists_credits
    · rw [h.eq_noCredentials_iff]
      exact ⟨fun hnone => ⟨hv, hl, hnone⟩, fun hnone => hnone.2.2⟩

/-- **An assertion is attributed to the credential that signed.** Whatever a card does, to sign over U2F the host says
nothing but the attempts with the allowed key handles that can be sent, in the order of the list. A credential is that
of an entry whose attempt succeeded with more than five bytes, is the last thing said, and stands behind attempts that
all failed by an unknown handle: it has the entry's identifier, and its authenticator data and signature are what that
answer holds. There is no credential exactly where all handles are unknown; where the user has to be verified, nothing
is tried. Whatever APDU is sent serves one of the attempts. -/
theorem assertion_attributed {σ : Type} (card : Card σ) (config : Config) (g : Signing) (s : Session (Recorded σ)) :
    ∃ xs, Dialogue (recording card) config.chunkSize s.card xs (getAssertion (recording card) config g s).2.card ∧
      Attributed g xs (getAssertion (recording card) config g s).1 ∧
      ∃ apdus, (getAssertion (recording card) config g s).2.card.sent = s.card.sent ++ apdus ∧
        ∀ a ∈ apdus, ∃ x ∈ xs, Serves x.command a := by
  have hsays : Says (recording card) config (getAssertion (recording card) config g) s (SigningCourse g) :=
    says_getAssertion g s
  obtain ⟨xs, hx, hcourse⟩ := hsays
  exact ⟨xs, hx, hcourse.attributed, hx.sent⟩

/-- A signature by a verified user, with a key handle that is too long to be sent. -/
def unsendableSigning : Signing :=
  { Signing.standard "example.com" (.zero 32) with
    allow := [.ofId (List.replicate 256 0x4b)], userVerification := .required }

/-- Where the user has to be verified, it is not the want of a credential that is told, though no key handle that can be
sent is left. -/
theorem not_noCredentials_of_required : unsendableSigning.allow ≠ [] ∧
    ¬ Says (recording Simulated.Card.card) (.standard fun _ => ⟨1, Crypto.P256.generator⟩)
      (getAssertion (recording Simulated.Card.card) (.standard fun _ => ⟨1, Crypto.P256.generator⟩) unsendableSigning)
      (Session.new ⟨Simulated.Card.ofScript [], []⟩)
      fun xs result => result = .error .noCredentials ↔ NoneKnown unsendableSigning unsendableSigning.allow xs := by
  refine ⟨List.cons_ne_nil _ _, ?_⟩
  generalize (Config.standard fun _ => ⟨1, Crypto.P256.generator⟩) = config
  rintro ⟨xs, hx, hiff⟩
  have hrequired : unsendableSigning.userVerification = .required := rfl
  rw [getAssertion, run_rejected hrequired] at hx hiff
  obtain rfl := hx.eq_nil _ rfl
  have hallow : unsendableSigning.allow = [.ofId (List.replicate 256 0x4b)] := rfl
  have hnone : NoneKnown unsendableSigning unsendableSigning.allow [] := by
    have hlong : ¬ (List.replicate 256 (0x4b : UInt8)).length ≤ 255 := by
      rw [List.length_replicate]
      decide
    rw [NoneKnown, hallow, attempts_cons_of_long hlong]
    exact ⟨rfl, List.forall_mem_nil _⟩
  cases hiff.mpr hnone

end SecurityKey.Fido.U2f
