import SecurityKey.Fido.Operation
import SecurityKey.Proofs.Ctap.CredentialMessages
import SecurityKey.Proofs.Ctap.PinMessages
import SecurityKey.Proofs.Fido.Conversation
import SecurityKey.Proofs.Fido.Conveyance
import SecurityKey.Proofs.Fido.RegisterAnswer
import SecurityKey.Proofs.Fido.Scripted

/-!
# Both protocols make the same credentials

A credential that an authenticator makes or signs with reaches a relying party in the same form, whether the
authenticator speaks U2F or CTAP2:

- `create_u2f` and `create_ctap2` say what a relying party gets of a new credential;
- `sign_u2f` and `sign_ctap2` say what it gets of a signature.
-/

namespace SecurityKey.Fido

open Credential (Attestation AuthenticatorData Conveyance Descriptor PublicKey)

/-! ## Credentials of attestations -/

/-- What an authenticator attests of a new key. -/
def attestedBy (app : Bytes.Sized 32) (aaguid : Bytes.Sized 16) (keyHandle : Bytes) (key : PublicKey) :
    AuthenticatorData :=
  ⟨app, Credential.userPresentFlag ||| Credential.attestedFlag, 0, some ⟨aaguid, keyHandle, key.toValue.encode⟩, none⟩

variable {app : Bytes.Sized 32} {aaguid : Bytes.Sized 16} {keyHandle : Bytes} {key : PublicKey}

theorem wellFormed_attestedBy (h : keyHandle.length ≤ 255) : (attestedBy app aaguid keyHandle key).WellFormed := by
  have hattested : AuthenticatorData.hasFlag (Credential.userPresentFlag ||| Credential.attestedFlag)
      Credential.attestedFlag = true := by decide
  have hextended : AuthenticatorData.hasFlag (Credential.userPresentFlag ||| Credential.attestedFlag)
      Credential.extensionsFlag = false := by decide
  refine ⟨hattested, hextended, ?_⟩
  intro c hc
  cases hc
  exact ⟨Nat.lt_of_le_of_lt h (by decide), key.toValue, (key.stable_toValue.mono (by decide)).decode⟩

/-- What is attested of a key with a short handle is short. -/
theorem fits_attestedBy (h : keyHandle.length ≤ 255) :
    (Cbor.Value.bytes (attestedBy app aaguid keyHandle key).toBytes).Fits := by
  have hkey := key.length_encode_toValue_le
  have hlength : (attestedBy app aaguid keyHandle key).toBytes.length =
      37 + (18 + keyHandle.length + (Cbor.Value.encode key.toValue).length) := by
    simp only [attestedBy, AuthenticatorData.toBytes, AuthenticatorData.credentialBytes, List.length_append,
      app.property, aaguid.property, List.length_singleton, Bytes.length_ofNat, Option.map_some, Option.getD_some,
      Option.getD_none, List.length_nil]
    omega
  show (attestedBy app aaguid keyHandle key).toBytes.length < 2 ^ 64
  omega

theorem attestedId_attestedBy (aaguid : Bytes.Sized 16) (h : keyHandle.length ≤ 255) :
    PublicKeyCredential.attestedId (attestedBy app aaguid keyHandle key).toBytes = .ok keyHandle := by
  rw [PublicKeyCredential.attestedId, AuthenticatorData.parse_toBytes (wellFormed_attestedBy h)]
  rfl

/-- Unless the relying party wants the attestation itself, neither the statement nor the authenticator's model is
left. -/
theorem ofAttestation_attestedBy {a : Attestation} (h : keyHandle.length ≤ 255)
    (ha : a.authData = (attestedBy app aaguid keyHandle key).toBytes) (conveyance : Conveyance) :
    PublicKeyCredential.ofAttestation a conveyance = .ok ⟨keyHandle, .attestation
      (if conveyance = .direct then a else .none (U2f.attestedData app keyHandle key).toBytes)⟩ := by
  have hid : PublicKeyCredential.attestedId a.authData = .ok keyHandle := by
    rw [ha]
    exact attestedId_attestedBy aaguid h
  have hblank : Credential.blankModel a.authData = (U2f.attestedData app keyHandle key).toBytes := by
    rw [ha, ← AuthenticatorData.toBytes_zeroAaguid rfl]
    rfl
  rw [PublicKeyCredential.ofAttestation_of_attestedId hid]
  cases conveyance with
  | direct => rfl
  | none | indirect =>
    rw [PublicKeyCredential.conveyed, hblank]
    rfl

/-! ## Sessions -/

variable {σ : Type} {card : Card σ} {config : Config} {s t : Session σ}

/-- A session is connected to an authenticator that speaks U2F. -/
structure Session.SpeaksU2f (card : Card σ) (s : Session σ) : Prop where
  connected : s.isConnected card = true
  noInfo : s.info = none

/-- A session is connected to an authenticator that speaks CTAP2, and has no token. -/
structure Session.SpeaksCtap2 (card : Card σ) (s : Session σ) : Prop where
  connected : s.isConnected card = true
  info : s.info.isSome = true
  noToken : s.pinToken = none

theorem Session.SpeaksU2f.isCtap2 (h : s.SpeaksU2f card) : s.isCtap2 = false := by
  rw [Session.isCtap2, h.noInfo]
  rfl

theorem Session.SpeaksCtap2.isCtap2 (h : s.SpeaksCtap2 card) : s.isCtap2 = true := h.info

/-- A connected session carries out the operation that its protocol has for the command. -/
theorem execute_of_connected {c : Command} {o : Operation} (h : s.isConnected card = true)
    (ho : Operation.resolve c.kind s.isCtap2 = .ok o) : execute card config c s = o.execute card config c s := by
  have hconnect : Session.connect card config s = (.ok (), s) := by
    unfold Session.connect
    rw [Action.run_bind, Action.run_get]
    simp only [h, if_true]
    rfl
  unfold execute
  rw [Action.bind_of_ok hconnect, Action.bind_of_ok (Action.run_get s), ho,
    Action.bind_of_ok (Action.run_ofExcept_ok ..)]

/-- What becomes of a command whose operation is known to run to some result. -/
theorem execute_of_run {c : Command} {o : Operation} {operation : Action (Session σ) Error PublicKeyCredential}
    {result : Except Error PublicKeyCredential} (h : s.isConnected card = true)
    (ho : Operation.resolve c.kind s.isCtap2 = .ok o)
    (hexecute : o.execute card config c = Answer.credential <$> operation)
    (hrun : operation s = (result, t)) : execute card config c s = (result.map .credential, t) := by
  rw [execute_of_connected h ho, hexecute, Action.run_map, hrun]

/-- A relying party that neither needs a verified user nor gives a PIN gets no authentication code. -/
theorem Ctap2.pinAuth_none {v : Credential.UserVerification} (hv : v ≠ .required) (hs : s.pinToken = none)
    (lastAttemptOk : Bool) (clientDataHash : Bytes) :
    Ctap2.pinAuth card config v none lastAttemptOk clientDataHash s = (.ok none, s) := by
  unfold Ctap2.pinAuth
  by_cases hd : v = .discouraged
  · simp only [hd, if_true]
    rfl
  · simp only [hd, hv, if_false]
    rw [Action.run_bind, Action.run_get]
    simp only [hs]
    rfl

theorem Ctap2.privilegedRequest_of_transmit {request : Bytes} {v : Cbor.Value} (hfits : v.Fits) (hneed : v.need ≤ 32)
    (h : Session.transmit card config (Session.ctap2Apdu request) s = (.ok (.ok (Ctap.response (some v))), t)) :
    Ctap2.privilegedRequest card config request s = (.ok v.canon, t) := by
  have hanswer : Session.ctap2Answer (.ok (.ok (Ctap.response (some v)))) = .ok (some v.canon) := by
    show (Ctap.parseResponse (Ctap.response (some v))).mapError Error.ofCtap = _
    rw [Ctap.parseResponse_response hfits hneed]
    rfl
  unfold Ctap2.privilegedRequest
  rw [Action.run_bind, Action.run_observe, Session.ctap2RequestBody_of_transmit h hanswer]
  rfl

/-- An item that needs too many levels is no answer. -/
theorem Ctap2.privilegedRequest_of_lt_need {request : Bytes} {v : Cbor.Value} (hfits : v.Fits) (hneed : 32 < v.need)
    (h : Session.transmit card config (Session.ctap2Apdu request) s = (.ok (.ok (Ctap.response (some v))), t)) :
    Ctap2.privilegedRequest card config request s = (.error (.ofCbor .malformed), t) := by
  have hanswer : Session.ctap2Answer (.ok (.ok (Ctap.response (some v)))) = .error (.ofCbor .malformed) := by
    show (Ctap.parseResponse (Ctap.response (some v))).mapError Error.ofCtap = _
    rw [Ctap.parseResponse_of_lt_need hfits hneed]
    rfl
  have hrequest := Session.ctap2Request_of_transmit h
  rw [hanswer] at hrequest
  have hbody : Session.ctap2RequestBody card config request s = (.error (.ofCbor .malformed), t) := by
    unfold Session.ctap2RequestBody
    rw [Action.bind_of_error hrequest]
  unfold Ctap2.privilegedRequest
  rw [Action.run_bind, Action.run_observe, hbody]
  rfl

/-! ## New credentials -/

/-- The relying party neither needs a verified user nor gives a PIN, and excludes no credential. -/
structure Creation.Plain (c : Creation) : Prop where
  unverified : c.userVerification ≠ .required
  noPin : c.pin = none
  noneExcluded : c.exclude = []

/-- The answer of an authenticator that speaks CTAP2. -/
def attestationAnswer (a : Attestation) : Bytes := Ctap.response (some a.toValue)

variable {c : Creation} {certificate signature : Bytes}

theorem ofPoint_toPoint (key : PublicKey) : PublicKey.ofPoint key.algorithm key.toPoint = .ok key := by
  have hx : (key.x.val ++ key.y.val).take 32 = key.x.val := List.take_left' key.x.property
  have hy : (key.x.val ++ key.y.val).drop 32 = key.y.val := List.drop_left' key.x.property
  unfold PublicKey.ofPoint PublicKey.toPoint
  simp only [List.cons_append, hx, hy, Bytes.sized?_val]

/-- What a U2F device answers is taken apart. -/
theorem create_u2f_of_transmit {data : Bytes} (hs : s.SpeaksU2f card) (hc : c.Plain)
    (h : Session.transmit card config (U2f.registerApdu c.clientDataHash (U2f.appId c.rp.id)) s =
      (.ok (.ok data), t)) :
    execute card config (.create c) s =
      ((RegisterResponse.parse data >>= U2f.registered (U2f.appId c.rp.id) c.conveyance).map .credential, t) := by
  have hreject : U2f.rejectUserVerification c.userVerification = .ok () := if_neg hc.unverified
  have hrun : U2f.makeCredential card config c s =
      (RegisterResponse.parse data >>= U2f.registered (U2f.appId c.rp.id) c.conveyance, t) := by
    unfold U2f.makeCredential
    rw [hreject, Action.bind_of_ok (Action.run_ofExcept_ok ..), hc.noneExcluded]
    show (Session.communicate card config _ >>= _ : Action (Session σ) Error PublicKeyCredential) s = _
    rw [Action.bind_of_ok (Session.communicate_of_transmit h)]
    show (Action.ofExcept id (RegisterResponse.parse data) >>= _ : Action (Session σ) Error PublicKeyCredential) t = _
    cases RegisterResponse.parse data with
    | error e => rfl
    | ok parts =>
      rw [Action.bind_of_ok (Action.run_ofExcept_ok ..)]
      show ((U2f.registered _ _ parts).mapError id, t) = (U2f.registered _ _ parts, t)
      cases U2f.registered (U2f.appId c.rp.id) c.conveyance parts <;> rfl
  have hresolve : Operation.resolve (Command.create c).kind s.isCtap2 = .ok .ctap1MakeCredential := by
    rw [hs.isCtap2]
    rfl
  exact execute_of_run hs.connected hresolve rfl hrun

/-- The credential of a U2F device. -/
theorem create_u2f (hs : s.SpeaksU2f card) (hc : c.Plain) (hkey : key.algorithm = .es256)
    (hhandle : keyHandle.length ≤ 255) (hcertificate : derLength (certificate ++ signature) = .ok certificate.length)
    (hsignature : 70 ≤ signature.length ∧ signature.length ≤ 73)
    (h : Session.transmit card config (U2f.registerApdu c.clientDataHash (U2f.appId c.rp.id)) s =
      (.ok (.ok (registerAnswer key keyHandle certificate signature)), t)) :
    ∃ a, execute card config (.create c) s = (.ok (.credential ⟨keyHandle, .attestation
      (if c.conveyance = .direct then a
        else .none (U2f.attestedData (U2f.appId c.rp.id) keyHandle key).toBytes)⟩), t) := by
  have hpoint : PublicKey.ofPoint .es256 key.toPoint = .ok key := hkey ▸ ofPoint_toPoint key
  let data := U2f.attestedData (U2f.appId c.rp.id) keyHandle key
  have hblank : data.toBytes = (attestedBy (U2f.appId c.rp.id) (.zero 16) keyHandle key).toBytes := rfl
  have hregistered : U2f.registered (U2f.appId c.rp.id) c.conveyance ⟨key.toPoint, keyHandle, certificate, signature⟩ =
      .ok ⟨keyHandle, .attestation (if c.conveyance = .direct then .fidoU2f data.toBytes certificate signature
        else .none data.toBytes)⟩ := by
    unfold U2f.registered
    simp only [hpoint, Action.mapError_ok, bind, Except.bind]
    exact ofAttestation_attestedBy hhandle hblank c.conveyance
  refine ⟨.fidoU2f data.toBytes certificate signature, ?_⟩
  rw [create_u2f_of_transmit hs hc h, RegisterResponse.parse_answer hhandle hcertificate hsignature]
  show ((U2f.registered _ _ _).map Answer.credential, t) = _
  rw [hregistered]
  rfl

/-- A certificate whose length is not found is refused. -/
theorem create_u2f_refused {e : Error} (hs : s.SpeaksU2f card) (hc : c.Plain) (hhandle : keyHandle.length ≤ 255)
    (hcertificate : derLength (certificate ++ signature) = .error e)
    (h : Session.transmit card config (U2f.registerApdu c.clientDataHash (U2f.appId c.rp.id)) s =
      (.ok (.ok (registerAnswer key keyHandle certificate signature)), t)) :
    execute card config (.create c) s = (.error e, t) := by
  rw [create_u2f_of_transmit hs hc h, RegisterResponse.parse_registerAnswer hhandle, hcertificate]
  rfl

/-- What a device that speaks CTAP2 answers is read. -/
theorem create_ctap2_of_request {answer : Except Error Cbor.Value} (hs : s.SpeaksCtap2 card) (hc : c.Plain)
    (h : Ctap2.privilegedRequest card config (Ctap2.creationRequest c none).toBytes s = (answer, t)) :
    execute card config (.create c) s = ((do
      let body ← answer
      let a ← (Attestation.ofValue body).mapError Error.ofCbor
      PublicKeyCredential.ofAttestation a c.conveyance).map .credential, t) := by
  have hauth : Ctap2.pinAuth card config c.userVerification c.pin c.lastAttemptOk c.clientDataHash.val s =
      (.ok none, s) := by
    rw [hc.noPin]
    exact Ctap2.pinAuth_none hc.unverified hs.noToken ..
  have hrun : Ctap2.makeCredential card config c s = (do
      let body ← answer
      let a ← (Attestation.ofValue body).mapError Error.ofCbor
      PublicKeyCredential.ofAttestation a c.conveyance, t) := by
    unfold Ctap2.makeCredential
    rw [Action.bind_of_ok hauth, Action.run_bind, h]
    cases answer with
    | error e => rfl
    | ok body =>
      show (Action.ofExcept Error.ofCbor (Attestation.ofValue body) >>= _ :
        Action (Session σ) Error PublicKeyCredential) t = _
      simp only [bind, Except.bind]
      cases Attestation.ofValue body with
      | error e => rfl
      | ok a =>
        show ((PublicKeyCredential.ofAttestation a c.conveyance).mapError id, t) =
          (PublicKeyCredential.ofAttestation a c.conveyance, t)
        cases PublicKeyCredential.ofAttestation a c.conveyance <;> rfl
  have hresolve : Operation.resolve (Command.create c).kind s.isCtap2 = .ok .ctap2MakeCredential := by
    rw [hs.isCtap2]
    rfl
  exact execute_of_run hs.connected hresolve rfl hrun

/-- The credential of a device that speaks CTAP2. -/
theorem create_ctap2 {a : Attestation} (hs : s.SpeaksCtap2 card) (hc : c.Plain) (hhandle : keyHandle.length ≤ 255)
    (hdata : a.authData = (attestedBy (U2f.appId c.rp.id) aaguid keyHandle key).toBytes)
    (hformat : (Cbor.Value.text a.format).Fits) (hstatement : a.statement.Fits) (hlevels : a.statement.need ≤ 30)
    (h : Session.transmit card config (Session.ctap2Apdu (Ctap2.creationRequest c none).toBytes) s =
      (.ok (.ok (attestationAnswer a)), t)) :
    ∃ a, execute card config (.create c) s = (.ok (.credential ⟨keyHandle, .attestation
      (if c.conveyance = .direct then a
        else .none (U2f.attestedData (U2f.appId c.rp.id) keyHandle key).toBytes)⟩), t) := by
  have hfits : a.toValue.Fits := Attestation.fits_toValue hformat (hdata ▸ fits_attestedBy hhandle) hstatement
  have hneed : a.toValue.need ≤ 32 := Attestation.need_toValue_le (by decide) hlevels
  have hrequest := Ctap2.privilegedRequest_of_transmit hfits hneed h
  refine ⟨⟨a.format, a.authData, a.statement.canon⟩, ?_⟩
  rw [create_ctap2_of_request hs hc hrequest]
  simp only [bind, Except.bind, a.ofValue_canon, Action.mapError_ok]
  rw [ofAttestation_attestedBy (a := ⟨a.format, a.authData, a.statement.canon⟩) hhandle hdata]
  rfl

/-- An attestation that needs too many levels is refused. -/
theorem create_ctap2_refused {a : Attestation} (hs : s.SpeaksCtap2 card) (hc : c.Plain) (hfits : a.toValue.Fits)
    (hlevels : 32 < a.toValue.need)
    (h : Session.transmit card config (Session.ctap2Apdu (Ctap2.creationRequest c none).toBytes) s =
      (.ok (.ok (attestationAnswer a)), t)) :
    execute card config (.create c) s = (.error (.ofCbor .malformed), t) := by
  rw [create_ctap2_of_request hs hc (Ctap2.privilegedRequest_of_lt_need hfits hlevels h)]
  rfl

/-! ## Signatures -/

/-- The relying party neither needs a verified user nor gives a PIN, and allows one credential. -/
structure Signing.Plain (r : Signing) (allowed : Descriptor) : Prop where
  unverified : r.userVerification ≠ .required
  noPin : r.pin = none
  allow : r.allow = [allowed]

/-- What an authenticator signs of a known key. -/
def signedBy (app : Bytes.Sized 32) (flags : UInt8) (counter : UInt32) : AuthenticatorData :=
  ⟨app, flags, counter, none, none⟩

/-- The answer of a U2F device: the end of the authenticator data and the signature. -/
def signAnswer (flags : UInt8) (counter : UInt32) (signature : Bytes) : Bytes :=
  [flags] ++ Bytes.ofNat 4 counter.toNat ++ signature

/-- The answer of an authenticator that speaks CTAP2. -/
def assertionAnswer (a : Ctap.Assertion) : Bytes := Ctap.response (some a.toValue)

variable {r : Signing} {allowed : Descriptor} {flags : UInt8} {counter : UInt32} {apdu : Apdu.Command}

/-- The signature of a U2F device. -/
theorem sign_u2f (hs : s.SpeaksU2f card) (hr : r.Plain allowed) (hsignature : signature ≠ [])
    (hapdu : U2f.authenticateApdu? false r.clientDataHash (U2f.appId r.rpId) allowed.id = some apdu)
    (h : Session.transmit card config apdu s = (.ok (.ok (signAnswer flags counter signature)), t)) :
    execute card config (.sign r) s = (.ok (.credential ⟨allowed.id, .assertion
      (signedBy (U2f.appId r.rpId) flags counter).toBytes signature none⟩), t) := by
  have hreject : U2f.rejectUserVerification r.userVerification = .ok () := if_neg hr.unverified
  have hfront : ([flags] ++ Bytes.ofNat 4 counter.toNat).length = 5 := by
    rw [List.length_append, Bytes.length_ofNat, List.length_singleton]
  have hlong : ¬ (signAnswer flags counter signature).length ≤ 5 := by
    have hpos := List.length_pos_iff.mpr hsignature
    rw [signAnswer, List.length_append, hfront]
    omega
  have hcredential : U2f.authenticated (U2f.appId r.rpId) allowed (signAnswer flags counter signature) =
      .ok ⟨allowed.id, .assertion (signedBy (U2f.appId r.rpId) flags counter).toBytes signature none⟩ := by
    rw [U2f.authenticated, if_neg hlong, signAnswer, List.take_left' hfront, List.drop_left' hfront]
    simp only [PublicKeyCredential.ofAssertion, signedBy, AuthenticatorData.toBytes, Option.map_none, Option.getD_none,
      List.append_nil, List.append_assoc]
  have hrun : U2f.getAssertion card config r s = (.ok ⟨allowed.id, .assertion
      (signedBy (U2f.appId r.rpId) flags counter).toBytes signature none⟩, t) := by
    unfold U2f.getAssertion
    rw [hreject, Action.bind_of_ok (Action.run_ofExcept_ok ..), hr.allow]
    show U2f.tryHandles card config r.clientDataHash (U2f.appId r.rpId) [allowed] s = _
    simp only [U2f.tryHandles, hapdu]
    rw [Action.bind_of_ok h]
    show Action.ofExcept id (U2f.authenticated (U2f.appId r.rpId) allowed (signAnswer flags counter signature)) t = _
    rw [hcredential]
    rfl
  have hresolve : Operation.resolve (Command.sign r).kind s.isCtap2 = .ok .ctap1GetAssertion := by
    rw [hs.isCtap2]
    rfl
  exact execute_of_run hs.connected hresolve rfl hrun

/-- The signature of a device that speaks CTAP2 and tells no user. -/
theorem sign_ctap2 {a : Ctap.Assertion} (hs : s.SpeaksCtap2 card) (hr : r.Plain allowed)
    (hdata : a.authData = (signedBy (U2f.appId r.rpId) flags counter).toBytes) (huser : a.user = none)
    (hcredential : ∀ d, a.credential = some d → d.toValue.Fits) (hsignature : (Cbor.Value.bytes a.signature).Fits)
    (h : Session.transmit card config (Session.ctap2Apdu (Ctap2.signingRequest r none).toBytes) s =
      (.ok (.ok (assertionAnswer a)), t)) :
    execute card config (.sign r) s = (.ok (.credential ⟨allowed.id, .assertion
      (signedBy (U2f.appId r.rpId) flags counter).toBytes a.signature none⟩), t) := by
  have hauth : Ctap2.pinAuth card config r.userVerification r.pin r.lastAttemptOk r.clientDataHash.val s =
      (.ok none, s) := by
    rw [hr.noPin]
    exact Ctap2.pinAuth_none hr.unverified hs.noToken ..
  have hheader : (Cbor.Value.bytes a.authData).Fits := by
    have hlength : (signedBy (U2f.appId r.rpId) flags counter).toBytes.length = 37 := by
      simp only [signedBy, AuthenticatorData.toBytes, List.length_append, (U2f.appId r.rpId).property,
        List.length_singleton, Bytes.length_ofNat, Option.map_none, Option.getD_none, List.length_nil]
    rw [hdata]
    show (signedBy (U2f.appId r.rpId) flags counter).toBytes.length < 2 ^ 64
    omega
  have hnone : ∀ u, a.user = some u → u.toValue.Fits := by
    intro u hu
    rw [huser] at hu
    cases hu
  have hfits : a.toValue.Fits := Ctap.Assertion.fits_toValue hcredential hheader hsignature hnone
  have hneed : a.toValue.need ≤ 32 := Nat.le_trans a.need_toValue_le (by decide)
  have hbody := Ctap2.privilegedRequest_of_transmit hfits hneed h
  have hallowed : (r.allow.isEmpty && !Ctap2.storesCredentials s) = false := by
    rw [hr.allow]
    rfl
  have hrun : Ctap2.getAssertion card config r s = (.ok ⟨allowed.id, .assertion
      (signedBy (U2f.appId r.rpId) flags counter).toBytes a.signature none⟩, t) := by
    unfold Ctap2.getAssertion
    rw [Action.bind_of_ok (Action.run_get s), hallowed]
    simp only [Bool.false_eq_true, if_false]
    rw [Action.bind_of_ok hauth, Action.bind_of_ok hbody, Ctap.Assertion.ofValue_canon a,
      Action.bind_of_ok (Action.run_ofExcept_ok ..), hr.allow, huser, hdata]
    rfl
  have hresolve : Operation.resolve (Command.sign r).kind s.isCtap2 = .ok .ctap2GetAssertion := by
    rw [hs.isCtap2]
    rfl
  exact execute_of_run hs.connected hresolve rfl hrun

/-! ## Both protocols -/

/-- A session with a U2F device and one with a CTAP2 device make the same of a key that both devices made: the same
credential, or at least the same identifier where the attestation itself is conveyed. They also make the same of a
signature that both devices gave. -/
theorem protocol_independent {σ₁ σ₂ : Type} {card₁ : Card σ₁} {card₂ : Card σ₂} {config₁ config₂ : Config}
    {s₁ t₁ : Session σ₁} {s₂ t₂ : Session σ₂} (h₁ : s₁.SpeaksU2f card₁) (h₂ : s₂.SpeaksCtap2 card₂) :
    (∀ (c : Creation) (aaguid : Bytes.Sized 16) (keyHandle : Bytes) (x y : Bytes.Sized 32) (contents signature : Bytes)
        (format : String) (statement : Cbor.Value),
      let key : PublicKey := ⟨.es256, x, y⟩
      let attestation : Attestation :=
        ⟨format, (attestedBy (U2f.appId c.rp.id) aaguid keyHandle key).toBytes, statement⟩
      c.Plain → keyHandle.length ≤ 255 → contents.length < 2 ^ 16 →
      70 ≤ signature.length ∧ signature.length ≤ 73 →
      (Cbor.Value.text format).Fits → statement.Fits → statement.need ≤ 30 →
      Session.transmit card₁ config₁ (U2f.registerApdu c.clientDataHash (U2f.appId c.rp.id)) s₁ =
        (.ok (.ok (registerAnswer key keyHandle (derSequence contents) signature)), t₁) →
      Session.transmit card₂ config₂ (Session.ctap2Apdu (Ctap2.creationRequest c none).toBytes) s₂ =
        (.ok (.ok (attestationAnswer attestation)), t₂) →
      ∃ p q, execute card₁ config₁ (.create c) s₁ = (.ok (.credential p), t₁) ∧
        execute card₂ config₂ (.create c) s₂ = (.ok (.credential q), t₂) ∧
        (c.conveyance ≠ .direct → p = q) ∧ p.rawId = q.rawId) ∧
    ∀ (r : Signing) (allowed : Descriptor) (apdu : Apdu.Command) (flags : UInt8) (counter : UInt32)
        (signature : Bytes) (credential : Option Descriptor) (count : Option UInt64),
      let assertion : Ctap.Assertion :=
        ⟨credential, (signedBy (U2f.appId r.rpId) flags counter).toBytes, signature, none, count⟩
      r.Plain allowed → signature ≠ [] → (Cbor.Value.bytes signature).Fits →
      (∀ d, credential = some d → d.toValue.Fits) →
      U2f.authenticateApdu? false r.clientDataHash (U2f.appId r.rpId) allowed.id = some apdu →
      Session.transmit card₁ config₁ apdu s₁ = (.ok (.ok (signAnswer flags counter signature)), t₁) →
      Session.transmit card₂ config₂ (Session.ctap2Apdu (Ctap2.signingRequest r none).toBytes) s₂ =
        (.ok (.ok (assertionAnswer assertion)), t₂) →
      ∃ p, execute card₁ config₁ (.sign r) s₁ = (.ok (.credential p), t₁) ∧
        execute card₂ config₂ (.sign r) s₂ = (.ok (.credential p), t₂) := by
  constructor
  · intro c aaguid keyHandle x y contents signature format statement key attestation hc hhandle hcontents hsignature
      hformat hstatement hlevels hregister hattest
    have hcertificate := derLength_derSequence hcontents signature
    obtain ⟨a, hp⟩ := create_u2f h₁ hc rfl hhandle hcertificate hsignature hregister
    obtain ⟨b, hq⟩ := create_ctap2 h₂ hc hhandle rfl hformat hstatement hlevels hattest
    refine ⟨_, _, hp, hq, ?_, rfl⟩
    intro hconveyance
    rw [if_neg hconveyance, if_neg hconveyance]
  · intro r allowed apdu flags counter signature credential count assertion hr hne hsignature hcredential hapdu hsign
      hassert
    exact ⟨_, sign_u2f h₁ hr hne hapdu hsign, sign_ctap2 h₂ hr rfl rfl hcredential hsignature hassert⟩

/-! ## Scripted devices -/

/-- A session with a U2F device that gives the answers. -/
def u2fSession (answers : List Bytes) : Session Simulated.Card :=
  { Session.new (.ofScript answers) with connected := true }

/-- A session with a device that speaks CTAP2 and gives the answers. -/
def ctap2Session (answers : List Bytes) : Session Simulated.Card :=
  { Session.new (.ofScript answers) with connected := true, info := some Simulated.Authenticator.new.info }

/-- A configuration that makes up no new keys. -/
def oldKeys : Config := .standard fun _ => Pin.pairOfOne

theorem speaksU2f_u2fSession (answers : List Bytes) : (u2fSession answers).SpeaksU2f Simulated.Card.card := ⟨rfl, rfl⟩

theorem speaksCtap2_ctap2Session (answers : List Bytes) : (ctap2Session answers).SpeaksCtap2 Simulated.Card.card :=
  ⟨rfl, rfl, rfl⟩

theorem exists_transmit_u2fSession (data : Bytes) (apdu : Apdu.Command) :
    ∃ t, Session.transmit Simulated.Card.card oldKeys apdu (u2fSession [data]) = (.ok (.ok data), t) := by
  obtain ⟨c, h, -⟩ := Session.transmit_scripted oldKeys (s := u2fSession [data])
    (Simulated.Card.scripted_ofScript [data]) apdu
  exact ⟨_, h⟩

theorem exists_transmit_ctap2Session (data : Bytes) (apdu : Apdu.Command) :
    ∃ t, Session.transmit Simulated.Card.card oldKeys apdu (ctap2Session [data]) = (.ok (.ok data), t) := by
  obtain ⟨c, h, -⟩ := Session.transmit_scripted oldKeys (s := ctap2Session [data])
    (Simulated.Card.scripted_ofScript [data]) apdu
  exact ⟨_, h⟩

/-- A creation with the usual wishes. -/
def usualCreation : Creation := .standard (.zero 32) ⟨"example.com", none, none⟩ ⟨[1], none, none, none⟩

/-- A signature with the usual wishes, by the credential of the simulated authenticator. -/
def usualSigning : Signing :=
  { Signing.standard "example.com" (.zero 32) with allow := [.ofId Simulated.keyHandle] }

/-- The attestation of that credential, with some statement. -/
def attestationWith (statement : Cbor.Value) : Attestation :=
  ⟨"packed", (attestedBy (U2f.appId "example.com") Simulated.aaguid Simulated.keyHandle
    Simulated.credentialKey).toBytes, statement⟩

/-- The answer to a registration of that credential, with some certificate. -/
def registerAnswerWith (contents : Bytes) : Bytes :=
  registerAnswer Simulated.credentialKey Simulated.keyHandle (derSequence contents) Simulated.signature

theorem protocol_independent_scripted :
    (∃ p t₁ t₂, execute Simulated.Card.card oldKeys (.create usualCreation) (u2fSession [registerAnswerWith [1]]) =
        (.ok (.credential p), t₁) ∧
      execute Simulated.Card.card oldKeys (.create usualCreation)
        (ctap2Session [attestationAnswer (attestationWith (.map []))]) = (.ok (.credential p), t₂)) ∧
    ∃ p t₁ t₂, execute Simulated.Card.card oldKeys (.sign usualSigning)
        (u2fSession [signAnswer 1 7 Simulated.signature]) = (.ok (.credential p), t₁) ∧
      execute Simulated.Card.card oldKeys (.sign usualSigning)
        (ctap2Session [assertionAnswer ⟨none, (signedBy (U2f.appId "example.com") 1 7).toBytes, Simulated.signature,
          none, none⟩]) = (.ok (.credential p), t₂) := by
  constructor
  · obtain ⟨t₁, hregister⟩ := exists_transmit_u2fSession (registerAnswerWith [1])
      (U2f.registerApdu usualCreation.clientDataHash (U2f.appId "example.com"))
    obtain ⟨t₂, hattest⟩ := exists_transmit_ctap2Session (attestationAnswer (attestationWith (.map [])))
      (Session.ctap2Apdu (Ctap2.creationRequest usualCreation none).toBytes)
    obtain ⟨p, q, hp, hq, heq, -⟩ := (protocol_independent (speaksU2f_u2fSession _) (speaksCtap2_ctap2Session _)).1
      usualCreation Simulated.aaguid Simulated.keyHandle Simulated.credentialKey.x Simulated.credentialKey.y [1]
      Simulated.signature "packed" (.map []) ⟨by decide, rfl, rfl⟩ (by decide) (by decide) (by decide) (by decide)
      (by decide) (by decide) hregister hattest
    exact ⟨p, t₁, t₂, hp, heq (by decide) ▸ hq⟩
  · obtain ⟨apdu, hapdu⟩ : ∃ apdu, U2f.authenticateApdu? false usualSigning.clientDataHash (U2f.appId "example.com")
      Simulated.keyHandle = some apdu := ⟨_, if_pos (by decide)⟩
    obtain ⟨t₁, hsign⟩ := exists_transmit_u2fSession (signAnswer 1 7 Simulated.signature) apdu
    obtain ⟨t₂, hassert⟩ := exists_transmit_ctap2Session (assertionAnswer ⟨none,
      (signedBy (U2f.appId "example.com") 1 7).toBytes, Simulated.signature, none, none⟩)
      (Session.ctap2Apdu (Ctap2.signingRequest usualSigning none).toBytes)
    obtain ⟨p, hp, hq⟩ := (protocol_independent (speaksU2f_u2fSession _) (speaksCtap2_ctap2Session _)).2 usualSigning
      (.ofId Simulated.keyHandle) apdu 1 7 Simulated.signature none none ⟨by decide, rfl, rfl⟩ (by decide) (by decide)
      nofun hapdu hsign hassert
    exact ⟨p, t₁, t₂, hp, hq⟩

/-- Arrays within arrays. -/
def nested : Nat → Cbor.Value
  | 0 => .array []
  | n + 1 => .array [nested n]

/-- A statement of sixteen arrays within each other is refused on the one side, a certificate of more than 65535 bytes
on the other. -/
theorem not_protocol_independent :
    ((execute Simulated.Card.card oldKeys (.create usualCreation) (u2fSession [registerAnswerWith [1]])).1.isOk = true ∧
      (execute Simulated.Card.card oldKeys (.create usualCreation)
        (ctap2Session [attestationAnswer (attestationWith (nested 15))])).1 = .error (.ofCbor .malformed)) ∧
    (execute Simulated.Card.card oldKeys (.create usualCreation)
        (u2fSession [registerAnswerWith (List.replicate 65536 1)])).1 =
          .error (.protocol "unsupported DER length form 83") ∧
      (execute Simulated.Card.card oldKeys (.create usualCreation)
        (ctap2Session [attestationAnswer (attestationWith (.map []))])).1.isOk = true := by
  have hplain : usualCreation.Plain := ⟨by decide, rfl, rfl⟩
  have hu2f := fun contents => speaksU2f_u2fSession [registerAnswerWith contents]
  have hctap2 := fun statement => speaksCtap2_ctap2Session [attestationAnswer (attestationWith statement)]
  have hregister := fun contents => exists_transmit_u2fSession (registerAnswerWith contents)
    (U2f.registerApdu usualCreation.clientDataHash (U2f.appId usualCreation.rp.id))
  have hattest := fun statement => exists_transmit_ctap2Session (attestationAnswer (attestationWith statement))
    (Session.ctap2Apdu (Ctap2.creationRequest usualCreation none).toBytes)
  refine ⟨⟨?_, ?_⟩, ?_, ?_⟩
  · obtain ⟨t, h⟩ := hregister [1]
    obtain ⟨a, hrun⟩ := create_u2f (hu2f _) hplain rfl (by decide) (derLength_derSequence (by decide) _) (by decide) h
    rw [hrun]
    rfl
  · obtain ⟨t, h⟩ := hattest (nested 15)
    have hfits : (attestationWith (nested 15)).toValue.Fits :=
      Attestation.fits_toValue (by decide) (fits_attestedBy (by decide)) (by decide)
    rw [create_ctap2_refused (hctap2 _) hplain hfits (by decide) h]
  · obtain ⟨t, h⟩ := hregister (List.replicate 65536 1)
    have hlong : derLength (derSequence (List.replicate 65536 1) ++ Simulated.signature) =
        .error (.protocol "unsupported DER length form 83") := by
      rw [derSequence, List.length_replicate]
      show derLength (0x30 :: 0x83 :: _) = _
      rw [derLength_long (by decide)]
      rfl
    rw [create_u2f_refused (hu2f _) hplain (by decide) hlong h]
  · obtain ⟨t, h⟩ := hattest (.map [])
    obtain ⟨a, hrun⟩ := create_ctap2 (hctap2 _) hplain (by decide) rfl (by decide) (by decide) (by decide) h
    rw [hrun]
    rfl

end SecurityKey.Fido
