import SecurityKey.Proofs.Fido.Connecting

/-!
# Whether an authenticator speaks CTAP2

Once an application is selected, the host asks the authenticator to tell about itself. One that has no usable answer
speaks U2F, and is connected all the same.

- `Informs` and `Misinforms`: answers that hold information, and answers that hold something else in its place;
- `Reads` lists what a session makes of an answer (`reads_readInfo`);
- `Asks`: a connection gets as far as the question, and the device is not gone;
- such a connection survives exactly where the answer does not hold something else (`survives_iff`). Where it does, the
  authenticator is not taken for one that speaks U2F: the connection fails, and the session is released.
-/

namespace SecurityKey.Fido.Session

variable {σ : Type} {card : Card σ} {config : Config} {s : Session σ} {answer : Except Error Apdu.Response}

/-! ## Answers -/

/-- The answer has status zero and an item that is information. -/
inductive Informs : Except Error Apdu.Response → Ctap.Info → Prop
  | told {item : Bytes} {v : Cbor.Value} {info : Ctap.Info} (hv : Cbor.decode item = .ok v)
      (hinfo : Ctap.Info.ofValue v = .ok info) : Informs (.ok (.ok (0x00 :: item))) info

/-- The answer has status zero and an item that is no information, for the given reason. -/
inductive Misinforms : Except Error Apdu.Response → Cbor.Error → Prop
  | told {item : Bytes} {v : Cbor.Value} {e : Cbor.Error} (hv : Cbor.decode item = .ok v)
      (he : Ctap.Info.ofValue v = .error e) : Misinforms (.ok (.ok (0x00 :: item))) e

theorem Informs.unique {info info' : Ctap.Info} (h : Informs answer info) (h' : Informs answer info') :
    info = info' := by
  obtain ⟨hv, hinfo⟩ := h
  cases h' with
  | told hv' hinfo' =>
    cases hv.symm.trans hv'
    cases hinfo.symm.trans hinfo'
    rfl

theorem Misinforms.unique {e e' : Cbor.Error} (h : Misinforms answer e) (h' : Misinforms answer e') : e = e' := by
  obtain ⟨hv, he⟩ := h
  cases h' with
  | told hv' he' =>
    cases hv.symm.trans hv'
    cases he.symm.trans he'
    rfl

theorem Informs.not_misinforms {info : Ctap.Info} {e : Cbor.Error} (h : Informs answer info) :
    ¬ Misinforms answer e := by
  intro h'
  obtain ⟨hv, hinfo⟩ := h
  cases h' with
  | told hv' he' =>
    cases hv.symm.trans hv'
    cases hinfo.symm.trans he'

/-- Status zero is the only one that tells of success. -/
theorem ofByte_eq_success_iff {code : UInt8} : Ctap.Status.ofByte code = .success ↔ code = 0x00 := by
  constructor
  · intro h
    rw [← Ctap.Status.toByte_ofByte code, h]
    rfl
  · rintro rfl
    rfl

/-- An item is read from an answer with status zero only. -/
theorem ctap2Answer_eq_some_iff {v : Cbor.Value} : ctap2Answer answer = .ok (some v) ↔
    ∃ item, answer = .ok (.ok (0x00 :: item)) ∧ Cbor.decode item = .ok v := by
  constructor
  · intro h
    obtain ⟨r, rfl, hr⟩ := Action.bind_eq_ok_iff.mp h
    split at hr
    · rename_i hsuccess
      have hparse := Action.eq_ok_of_mapError hr
      have hsw : r.sw = .success := of_decide_eq_true hsuccess
      unfold Ctap.parseResponse at hparse
      split at hparse
      · cases hparse
      · rename_i code item hdata
        split at hparse
        · rename_i hcode
          rw [ofByte_eq_success_iff] at hcode
          split at hparse
          · cases hparse
          · have hitem := Action.eq_ok_of_mapError hparse
            cases hd : Cbor.decode item with
            | error e =>
              rw [hd] at hitem
              cases hitem
            | ok w =>
              rw [hd] at hitem
              cases hitem
              refine ⟨item, ?_, hd⟩
              rw [← hcode, ← hdata, Apdu.Response.ok, ← hsw]
        · cases hparse
    · cases hr
  · rintro ⟨item, rfl, hv⟩
    have hitem : item.isEmpty = false := by
      cases item with
      | nil => cases hv
      | cons b rest => rfl
    show (Ctap.parseResponse (0x00 :: item)).mapError Error.ofCtap = _
    unfold Ctap.parseResponse
    have hstatus : Ctap.Status.ofByte 0x00 = .success := rfl
    simp only [hstatus, hitem, hv]
    rfl

/-- No status and no status word tells that the device is gone. -/
theorem isDisconnect_of_ctap2Answer {e : Error} (hpresent : ∀ e, answer = .error e → e.isDisconnect = false)
    (h : ctap2Answer answer = .error e) : e.isDisconnect = false := by
  have hsw : ∀ sw, (Error.ofFidoStatus sw).isDisconnect = false := by
    intro sw
    unfold Error.ofFidoStatus
    repeat' split
    all_goals rfl
  have hctap : ∀ e, (Error.ofCtap e).isDisconnect = false := by
    intro e
    cases e with
    | status code => cases code <;> rfl
    | cbor e => rfl
    | crypto e => rfl
    | invalidResponse reason => rfl
  cases answer with
  | error e' =>
    cases h
    exact hpresent e rfl
  | ok r =>
    change (if r.isSuccess then (Ctap.parseResponse r.data).mapError Error.ofCtap else .error (.ofFidoStatus r.sw)) =
      .error e at h
    split at h
    · cases hp : Ctap.parseResponse r.data with
      | error e' =>
        rw [hp] at h
        cases h
        exact hctap e'
      | ok body =>
        rw [hp] at h
        cases h
    · cases h
      exact hsw r.sw

/-! ## What becomes of an answer -/

/-- What a session makes of an answer, and what it knows of the authenticator then: it has the information, it fails for
the want of it, or it goes on without. -/
inductive Reads (answer : Except Error Apdu.Response) : Except Error Unit → Option Ctap.Info → Prop
  | informed {info : Ctap.Info} (h : Informs answer info) : Reads answer (.ok ()) (some info)
  | misinformed {e : Cbor.Error} (h : Misinforms answer e) : Reads answer (.error (.ofCbor e)) none
  | uninformed (hinfo : ∀ info, ¬ Informs answer info) (herror : ∀ e, ¬ Misinforms answer e) :
      Reads answer (.ok ()) none

/-- Without an item an answer neither informs nor misinforms. -/
theorem Reads.of_no_item (h : ∀ v, ctap2Answer answer ≠ .ok (some v)) : Reads answer (.ok ()) none := by
  refine .uninformed ?_ ?_
  · rintro info ⟨hv, -⟩
    exact h _ (ctap2Answer_eq_some_iff.mpr ⟨_, rfl, hv⟩)
  · rintro e ⟨hv, -⟩
    exact h _ (ctap2Answer_eq_some_iff.mpr ⟨_, rfl, hv⟩)

theorem reads_readInfo {c : σ} (hnone : s.info = none) (hpresent : ∀ e, answer = .error e → e.isDisconnect = false)
    (h : Exchange.transmit card (ctap2Apdu (Ctap.request .getInfo none)) config.chunkSize s.card = (answer, c)) :
    Reads answer (readInfo card config s).1 (readInfo card config s).2.info := by
  have hwithout : (∀ v, ctap2Answer answer ≠ .ok (some v)) → Reads answer (.ok ()) s.info := by
    intro hitem
    rw [hnone]
    exact .of_no_item hitem
  rw [run_readInfo h]
  rcases ha : ctap2Answer answer with e | _ | v
  · simp only [isDisconnect_of_ctap2Answer hpresent ha, Bool.false_eq_true, if_false]
    exact hwithout fun v hv => nomatch ha.symm.trans hv
  · exact hwithout fun v hv => nomatch ha.symm.trans hv
  · obtain ⟨item, rfl, hv⟩ := ctap2Answer_eq_some_iff.mp ha
    cases hinfo : Ctap.Info.ofValue v with
    | error e =>
      simp only [hinfo, hnone]
      exact .misinformed (.told hv hinfo)
    | ok info =>
      simp only [hinfo]
      exact .informed (.told hv hinfo)

namespace Reads

variable {result : Except Error Unit} {known : Option Ctap.Info} (h : Reads answer result known)

include h

/-- Where it fails nothing is known. -/
theorem known_eq_none {e : Error} (he : result = .error e) : known = none := by
  cases h with
  | informed _ => cases he
  | misinformed _ => rfl
  | uninformed _ _ => rfl

/-- What is known is what the answer informs of. -/
theorem known_iff (info : Ctap.Info) : known = some info ↔ Informs answer info := by
  cases h with
  | informed h => exact ⟨fun he => Option.some.inj he ▸ h, fun h' => congrArg some (h.unique h')⟩
  | misinformed h => exact iff_of_false nofun fun h' => h'.not_misinforms h
  | uninformed hinfo _ => exact iff_of_false nofun (hinfo info)

/-- Nothing but an item that is no information makes it fail. -/
theorem ok_iff : result = .ok () ↔ ∀ e, ¬ Misinforms answer e := by
  cases h with
  | informed h => exact iff_of_true rfl fun e h' => h.not_misinforms h'
  | misinformed h => exact iff_of_false nofun fun h' => h' _ h
  | uninformed _ herror => exact iff_of_true rfl herror

theorem error_of_misinforms {e : Cbor.Error} (he : Misinforms answer e) :
    result = .error (.ofCbor e) ∧ known = none := by
  cases h with
  | informed h => exact absurd he h.not_misinforms
  | misinformed h => exact ⟨congrArg (fun e => Except.error (Error.ofCbor e)) (h.unique he), rfl⟩
  | uninformed _ herror => exact absurd he (herror e)

end Reads

/-! ## Connections that get an answer -/

variable (card config s answer) in
/-- A connection gets as far as the question for information, which is answered so, and the device is not gone. -/
structure Asks : Prop where
  unconnected : s.isConnected card = false
  unforced : config.forceCtap1 = false
  answered : ∃ t version u c, Opens card s t ∧ readVersion card config t = (.ok version, u) ∧
    Exchange.transmit card (ctap2Apdu (Ctap.request .getInfo none)) config.chunkSize u.card = (answer, c)
  present : ∀ e, answer = .error e → e.isDisconnect = false

variable (card config s answer) in
/-- The connection is made, and it speaks CTAP2 exactly where the answer holds information, which is what is known of
the authenticator then. -/
def Survives : Prop :=
  (connect card config s).1 = .ok () ∧ ∀ info, (connect card config s).2.info = some info ↔ Informs answer info

/-- A connection is what the session makes of the answer, and is released where it fails. -/
theorem Asks.reads (h : Asks card config s answer) :
    Reads answer (connect card config s).1 (connect card config s).2.info ∧
      ∀ e, (connect card config s).1 = .error e → (connect card config s).2.isConnected card = false := by
  obtain ⟨t, version, u, c, hopen, hread, hanswer⟩ := h.answered
  have hreads := reads_readInfo (s := knowing version u) rfl h.present hanswer
  rw [run_connect h.unconnected hopen, run_greet hread h.unforced]
  rcases hrun : readInfo card config (knowing version u) with ⟨e | _, v⟩
  · rw [hrun] at hreads
    -- what fails knows nothing, and neither does what is released
    have hnone : v.info = none := hreads.known_eq_none rfl
    rw [hnone] at hreads
    exact ⟨hreads, fun _ _ => rfl⟩
  · rw [hrun] at hreads
    exact ⟨hreads, nofun⟩

/-- A card that is asked for information after it has answered with its version. -/
theorem asks_scripted {config : Config} {version : String} {data : Bytes}
    (hconfig : config.selectApplet = true ∧ config.forceCtap1 = false)
    (hversion : (checkVersion (Bytes.ofString version)).toOption = some version) :
    Asks Simulated.Card.card config (.new (Simulated.Card.ofScript [Bytes.ofString version, data]))
      (.ok (.ok data)) := by
  let s : Session Simulated.Card := .new (Simulated.Card.ofScript [Bytes.ofString version, data])
  obtain ⟨c, hselect, hc⟩ := Simulated.Card.transmit_scripted (Simulated.Card.scripted_ofScript _)
    (.select Simulated.applicationId) config.chunkSize
  obtain ⟨c', hget, -⟩ := Simulated.Card.transmit_scripted hc (ctap2Apdu (Ctap.request .getInfo none)) config.chunkSize
  have hread := readVersion_of_transmit (s := s) hconfig.1 hselect hversion
  exact ⟨rfl, hconfig.2, ⟨s, version, _, c', .ready rfl, hread, hget⟩, nofun⟩

/-- **Whether a connection survives the question for information.** A connection that gets an answer to it is made, and
speaks CTAP2 exactly where the answer is information, unless the answer is a whole item with status zero that is no
information. Then the connection fails for that reason, and the session is released. -/
theorem survives_iff (h : Asks card config s answer) :
    (Survives card config s answer ↔ ∀ e, ¬ Misinforms answer e) ∧
      ∀ e, Misinforms answer e → (connect card config s).1 = .error (.ofCbor e) ∧
        (connect card config s).2.info = none ∧ (connect card config s).2.isConnected card = false := by
  obtain ⟨hreads, hreleased⟩ := h.reads
  refine ⟨?_, fun e he => ?_⟩
  · rw [← hreads.ok_iff]
    exact and_iff_left hreads.known_iff
  · obtain ⟨hresult, hnone⟩ := hreads.error_of_misinforms he
    exact ⟨hresult, hnone, hreleased _ hresult⟩

/-- A connection survives an error status. -/
theorem survives_error_status :
    let config : Config := .standard fun _ => ⟨1, Crypto.P256.generator⟩
    let s : Session Simulated.Card := .new (Simulated.Card.ofScript [Bytes.ofString "U2F_V2", [0x01]])
    Asks Simulated.Card.card config s (.ok (.ok [0x01])) ∧
      Survives Simulated.Card.card config s (.ok (.ok [0x01])) := by
  intro config s
  have h : Asks Simulated.Card.card config s (.ok (.ok [0x01])) := asks_scripted ⟨rfl, rfl⟩ (by decide)
  exact ⟨h, (survives_iff h).1.mpr nofun⟩

/-- A connection that gets an answer to the question does not survive a number in the place of information. -/
theorem not_survives_number :
    ¬ ∀ answer s, Asks Simulated.Card.card (.standard fun _ => ⟨1, Crypto.P256.generator⟩) s answer →
      Survives Simulated.Card.card (.standard fun _ => ⟨1, Crypto.P256.generator⟩) s answer := by
  intro hall
  have h : Asks Simulated.Card.card (.standard fun _ => ⟨1, Crypto.P256.generator⟩)
      (.new (Simulated.Card.ofScript [Bytes.ofString "U2F_V2", [0x00, 0x01]])) (.ok (.ok [0x00, 0x01])) :=
    asks_scripted ⟨rfl, rfl⟩ (by decide)
  obtain ⟨hreads, -⟩ := h.reads
  have hnumber : ∃ e, Misinforms (.ok (.ok [0x00, 0x01])) e := ⟨_, .told rfl rfl⟩
  obtain ⟨e, he⟩ := hnumber
  exact hreads.ok_iff.mp (hall _ _ h).1 e he

end SecurityKey.Fido.Session
