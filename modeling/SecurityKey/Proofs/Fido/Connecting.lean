import SecurityKey.Proofs.Ctap.Information
import SecurityKey.Proofs.Fido.Conversation
import SecurityKey.Proofs.Simulated.Card

/-!
# Connections that are made

- A connection is what becomes of the dialogue with its card (`Session.run_connect`), and that goes on, after the
  version is known, with the question for information (`Session.run_greet`, `Session.run_readInfo`);
- so a session is connected where the first application that it asks for answers with a version and then tells about
  itself (`Session.connect_of_transmits`). Of a simulated authenticator it knows then what that tells
  (`Session.connect_holding`).
-/

namespace SecurityKey.Fido

open Simulated (Authenticator)

namespace Session

section Answers

variable {σ : Type} {card : Card σ} {config : Config} {s : Session σ} {c c' : σ} {data : Bytes} {info : Ctap.Info}

/-- What a session makes of the answer to the question for information. -/
theorem run_readInfo {answer : Except Error Apdu.Response}
    (h : Exchange.transmit card (ctap2Apdu (Ctap.request .getInfo none)) config.chunkSize s.card = (answer, c)) :
    readInfo card config s =
      match ctap2Answer answer with
      | .ok none => (.ok (), { s with card := c })
      | .ok (some body) =>
        match Ctap.Info.ofValue body with
        | .error e => (.error (.ofCbor e), { s with card := c })
        | .ok info =>
          (.ok (), { tell (.breadcrumb "authenticatorGetInfo succeeded, using CTAP2") { s with card := c } with
            info := some info })
      | .error e => if e.isDisconnect then (.error e, { s with card := c }) else (.ok (), { s with card := c }) := by
  unfold readInfo
  rw [Action.run_bind, Action.run_observe, ctap2Request_of_transmit (transmit_of_exchange h)]
  rcases ctap2Answer answer with e | _ | body
  · simp only
    split <;> rfl
  · rfl
  · simp only [Action.run_bind]
    cases Ctap.Info.ofValue body <;> rfl

/-- What is read from the answer to a request for information. -/
def informationOf (data : Bytes) : Option Ctap.Info :=
  (Ctap.parseResponse data).toOption.join.bind fun body => (Ctap.Info.ofValue body).toOption

theorem readInfo_of_transmit
    (h : Exchange.transmit card (ctap2Apdu (Ctap.request .getInfo none)) config.chunkSize s.card = (.ok (.ok data), c))
    (hinfo : informationOf data = some info) : ∃ events,
    readInfo card config s = (.ok (), { s with card := c, info := some info, events }) := by
  obtain ⟨body, hbody, hread⟩ := Option.bind_eq_some_iff.mp hinfo
  have hanswer : ctap2Answer (.ok (.ok data)) = .ok (some body) := by
    rw [Option.join_eq_some_iff] at hbody
    show (Ctap.parseResponse data).mapError Error.ofCtap = _
    rw [Action.eq_ok_of_toOption hbody]
    rfl
  rw [run_readInfo h, hanswer]
  simp only [Action.eq_ok_of_toOption hread]
  exact ⟨_, rfl⟩

/-- The version of an application that is found under the first identifier. -/
theorem readVersion_of_transmit {version : String} (hconfig : config.selectApplet = true)
    (hselect : Exchange.transmit card (.select Simulated.applicationId) config.chunkSize s.card =
      (.ok (.ok (Bytes.ofString version)), c))
    (hversion : (checkVersion (Bytes.ofString version)).toOption = some version) :
    readVersion card config s = (.ok version, tell (.breadcrumb "selected FIDO applet") { s with card := c }) := by
  have hfirstAid : aids = Simulated.applicationId :: aids.tail := rfl
  unfold readVersion
  rw [if_pos hconfig, hfirstAid, selectApplet, Action.bind_of_ok (transmit_of_exchange hselect)]
  simp only [Apdu.Response.ok, Apdu.Response.isSuccess, Action.eq_ok_of_toOption hversion]
  rfl

/-- The session once the version of the application is known. -/
def knowing (version : String) (s : Session σ) : Session σ :=
  { tell (.tag "fido_version" version) s with version := some version, info := none }

/-- A dialogue that gets the version goes on with the question for information. -/
theorem run_greet {version : String} {t : Session σ} (hread : readVersion card config s = (.ok version, t))
    (hconfig : config.forceCtap1 = false) : greet card config s = readInfo card config (knowing version t) := by
  unfold greet
  rw [Action.bind_of_ok hread]
  simp only [Action.run_bind, Action.run_modify, hconfig]
  rfl

/-- A connection is what becomes of the dialogue with the card. -/
theorem run_connect {t : Session σ} (hs : s.isConnected card = false) (hopen : Opens card s t) :
    connect card config s =
      match greet card config t with
      | (.ok (), u) => (.ok (), { u with connected := true })
      | (.error e, u) => (.error e, release card u) := by
  rcases hr : connect card config s with ⟨r, u⟩
  cases attempt_of_connect hr with
  | needless h =>
    rw [hs] at h
    cases h
  | refused _ hlost h =>
    cases hopen with
    | ready hready => cases hready.symm.trans hlost
    | connected _ hc => cases hc.symm.trans h
  | failed _ hopen' hg =>
    obtain rfl := hopen'.unique hopen
    rw [hg]
  | completed _ hopen' hg =>
    obtain rfl := hopen'.unique hopen
    rw [hg]

/-- A connection with a card that is there, by the answers to its two commands. -/
theorem connect_of_transmits {version : String} (hs : s.connected = false) (hready : card.isConnected s.card = true)
    (hconfig : config.selectApplet = true ∧ config.forceCtap1 = false)
    (hselect : Exchange.transmit card (.select Simulated.applicationId) config.chunkSize s.card =
      (.ok (.ok (Bytes.ofString version)), c))
    (hversion : (checkVersion (Bytes.ofString version)).toOption = some version)
    (hget : Exchange.transmit card (ctap2Apdu (Ctap.request .getInfo none)) config.chunkSize c = (.ok (.ok data), c'))
    (hinfo : informationOf data = some info) : ∃ events, connect card config s =
      (.ok (), { s with card := c', connected := true, version := some version, info := some info, events }) := by
  have hread := readVersion_of_transmit hconfig.1 hselect hversion
  obtain ⟨events, htell⟩ := readInfo_of_transmit
    (s := knowing version (tell (.breadcrumb "selected FIDO applet") { s with card := c })) hget hinfo
  have hunconnected : s.isConnected card = false := by simp [isConnected, hs]
  refine ⟨events, ?_⟩
  rw [run_connect hunconnected (.ready hready), run_greet hread hconfig.2, htell]
  rfl

end Answers

/-! ## Simulated authenticators -/

/-- What a simulated authenticator tells is read as it is. -/
theorem informationOf_info (a : Authenticator) : informationOf (Ctap.response (some a.info.toValue)) = some a.info := by
  have hfits : a.info.toValue.Fits := by
    have hall : ∀ u2f residentKeys pinSupported set : Bool, ({ Authenticator.new with
        u2f, residentKeys, pinSupported, pin := if set then some "" else none } : Authenticator).info.toValue.Fits := by
      decide
    have hself : a.info = ({ Authenticator.new with
        u2f := a.u2f, residentKeys := a.residentKeys, pinSupported := a.pinSupported
        pin := if a.pin.isSome then some "" else none } : Authenticator).info := by
      unfold Authenticator.info
      cases a.pin <;> rfl
    rw [hself]
    exact hall ..
  unfold informationOf
  rw [Ctap.parseResponse_response hfits (Nat.le_trans a.info.need_toValue_le (by decide))]
  show (Ctap.Info.ofValue a.info.toValue.canon).toOption = _
  rw [a.info.ofValue_canon]
  rfl

/-- A session that connects knows what its authenticator tells. -/
theorem connect_holding {config : Config} {s : Session Simulated.Card} {a : Authenticator} {heard : List Bytes}
    (h : s.card.Holds a heard) (ha : a.ctap2 = true) (hs : s.connected = false)
    (hconfig : config.selectApplet = true ∧ config.forceCtap1 = false) :
    ∃ t heard', connect Simulated.Card.card config s = (.ok (), t) ∧ t.info = some a.info ∧
      t.pinToken = s.pinToken ∧ t.card.Holds a heard' := by
  have hversion : ∀ u2f : Bool, (checkVersion (Bytes.ofString (if u2f then "U2F_V2" else "FIDO_2_0"))).toOption =
      some (if u2f then "U2F_V2" else "FIDO_2_0") := by decide
  have hselected : a.process (.select Simulated.applicationId) =
      (.ok (Bytes.ofString (if a.u2f then "U2F_V2" else "FIDO_2_0")), a) := rfl
  have htold : a.process (ctap2Apdu (Ctap.request .getInfo none)) = (.ok (Ctap.response (some a.info.toValue)), a) :=
    Authenticator.process_ctap2Apdu ha _
  obtain ⟨c, hselect, hc⟩ := Simulated.Card.transmit_of_process h hselected config.chunkSize
  obtain ⟨c', hget, hc'⟩ := Simulated.Card.transmit_of_process hc htold config.chunkSize
  obtain ⟨events, hconnect⟩ := connect_of_transmits hs h.connected hconfig hselect (hversion a.u2f) hget
    (informationOf_info a)
  exact ⟨_, _, hconnect, rfl, rfl, hc'⟩

end Session

end SecurityKey.Fido
