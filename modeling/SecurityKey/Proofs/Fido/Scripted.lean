import SecurityKey.Fido.Ctap2
import SecurityKey.Proofs.Fido.Connecting
import SecurityKey.Proofs.Fido.Issuance
import SecurityKey.Proofs.Fido.PinAnswers
import SecurityKey.Proofs.Fido.PinRuns

/-!
# Sessions with a scripted card

- a session connects with a script that begins with a version and with information (`Session.connect_scripted`);
- it gets a token for any PIN from the fixed answers (`Pin.getPinToken_scripted`), and with it a code for a command
  (`Ctap2.pinAuth_scripted`).
-/

namespace SecurityKey.Fido

open Simulated.Card (Scripted)

variable (config : Config) {s : Session Simulated.Card} {data : Bytes} {answers : List Bytes}

namespace Session

theorem transmit_scripted (h : Scripted s.card (data :: answers)) (c : Apdu.Command) :
    ∃ c', transmit Simulated.Card.card config c s = (.ok (.ok data), { s with card := c' }) ∧ Scripted c' answers := by
  obtain ⟨c', hrun, hc'⟩ := Simulated.Card.transmit_scripted h c config.chunkSize
  exact ⟨c', transmit_of_exchange hrun, hc'⟩

/-- The answers of a connection with an authenticator that speaks CTAP2. -/
theorem connect_scripted {version : String} {info : Ctap.Info}
    (h : Scripted s.card (Bytes.ofString version :: data :: answers)) (hs : s.connected = false)
    (hconfig : config.selectApplet = true ∧ config.forceCtap1 = false)
    (hversion : (checkVersion (Bytes.ofString version)).toOption = some version)
    (hinfo : informationOf data = some info) :
    ∃ t, connect Simulated.Card.card config s = (.ok (), t) ∧ t.connected = true ∧ t.info = some info ∧
      t.pinToken = s.pinToken ∧ Scripted t.card answers := by
  obtain ⟨c, hselect, hc⟩ := Simulated.Card.transmit_scripted h (.select Simulated.applicationId) config.chunkSize
  obtain ⟨c', hget, hc'⟩ :=
    Simulated.Card.transmit_scripted hc (ctap2Apdu (Ctap.request .getInfo none)) config.chunkSize
  obtain ⟨events, hconnect⟩ := connect_of_transmits hs h.connected hconfig hselect hversion hget hinfo
  exact ⟨_, hconnect, rfl, rfl, rfl, hc'⟩

end Session

/-! ## Requests about the PIN -/

namespace Pin

theorem request_scripted (r : Ctap.ClientPin) {response : Ctap.PinResponse} (h : Scripted s.card (data :: answers))
    (hread : (readAnswer (.ok (.ok data))).toOption = some response) :
    ∃ c', request Simulated.Card.card config r s = (.ok response, { s with card := c' }) ∧ Scripted c' answers := by
  obtain ⟨c', htransmit, hc'⟩ := Session.transmit_scripted config h (Session.ctap2Apdu r.toBytes)
  refine ⟨c', ?_, hc'⟩
  rw [request_of_transmit htransmit, Action.eq_ok_of_toOption hread]

/-- The fixed answers give a token for every PIN. -/
theorem getPinToken_scripted (pin : Pin) (lastAttemptOk : Bool)
    (h : Scripted s.card (retriesAnswer :: keyAnswer :: tokenAnswer :: answers))
    (hkey : config.freshKey s.keysMade = pairOfOne) :
    ∃ token t, getPinToken Simulated.Card.card config none pin lastAttemptOk s = (.ok token, t) ∧
      t.connected = s.connected ∧ t.info = s.info ∧ Scripted t.card answers := by
  have hretriesRead : (readAnswer (.ok (.ok retriesAnswer))).toOption = some ⟨none, none, some 8⟩ := by decide +kernel
  have hkeyRead : (readAnswer (.ok (.ok keyAnswer))).toOption = some ⟨some (hostKey pairOfOne), none, none⟩ := by
    decide +kernel
  have htokenRead : (readAnswer (.ok (.ok tokenAnswer))).toOption = some ⟨none, some (List.replicate 16 0), none⟩ := by
    decide +kernel
  obtain ⟨c, hretries, hc⟩ := request_scripted config (.getRetries protocol) h hretriesRead
  obtain ⟨d, hkeyAnswer, hd⟩ := request_scripted config (.getKeyAgreement protocol) (s := { s with card := c }) hc
    hkeyRead
  obtain ⟨a, ha⟩ := exists_agreementWith_pairOfOne
  obtain ⟨enc, henc, -⟩ := pinHashEnc_eq a.sessionKey pin.text
  obtain ⟨e, htoken, he⟩ := request_scripted config (.getPinToken protocol a.hostKey enc)
    (s := { s with card := d, keysMade := s.keysMade + 1 }) hd htokenRead
  have hcheck : checkRetries Simulated.Card.card config lastAttemptOk s = (.ok 8, { s with card := c }) :=
    run_checkRetries hretries rfl (.inl (by decide))
  have hagree : agree Simulated.Card.card config none { s with card := c } =
      (.ok a, { s with card := d, keysMade := s.keysMade + 1 }) := by
    have hpair : pairFrom config none s.keysMade = .ok pairOfOne := congrArg Except.ok hkey
    exact run_agree hkeyAnswer rfl hpair ha
  have hrun := run_getPinToken hcheck hagree henc htoken
  exact ⟨_, _, hrun, rfl, rfl, he⟩

end Pin

/-- The fixed answers give a code for every command that asks for the user to be verified. -/
theorem Ctap2.pinAuth_scripted {info : Ctap.Info} {v : Credential.UserVerification} (pin : Pin) (lastAttemptOk : Bool)
    (hash : Bytes) (h : Scripted s.card (Pin.retriesAnswer :: Pin.keyAnswer :: Pin.tokenAnswer :: answers))
    (hkey : config.freshKey s.keysMade = Pin.pairOfOne) (hinfo : s.info = some info)
    (hset : (info.supportsClientPin && info.isPinSet) = true) (hnone : s.pinToken = none) (hv : v = .preferred) :
    ∃ token t, pinAuth Simulated.Card.card config v (some pin) lastAttemptOk hash s =
      (.ok (some (token.authenticate hash)), t) ∧ t.pinToken = some token ∧ t.connected = s.connected ∧
      Scripted t.card answers := by
  subst hv
  obtain ⟨token, t, hget, hconnected, -, hscript⟩ := Pin.getPinToken_scripted config pin lastAttemptOk h hkey
  refine ⟨token, { t with pinToken := some token }, ?_, rfl, hconnected, hscript⟩
  have hset' : (info.supportsClientPin = true ∧ info.isPinSet = true) := by simpa using hset
  unfold pinAuth
  simp only [Action.run_bind, Action.run_get, hnone, hinfo, reduceCtorEq, if_false, Option.map_some, Option.getD_some,
    hset'.1, hset'.2, Bool.and_self, if_true, hget, Action.run_modify, Action.run_pure]

end SecurityKey.Fido
