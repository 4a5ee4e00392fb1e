import SecurityKey.Piv.Session
import SecurityKey.Proofs.Exchange.Dialogue
import SecurityKey.Proofs.Simulated.Card
import SecurityKey.Proofs.Utf8

/-!
# PINs in fields of eight bytes

- a PIN of one to eight bytes is accepted (`pinField_eq_ok_iff`), and any other refused (`pinField_eq_error_iff`). The
  field is filled up with a byte that stands in no text, so that the PIN is what comes before the first such byte
  (`takeWhile_pinField`);
- so fields are told apart (`pinField_inj`), and the data that resets a PIN, which is two fields of a known length
  (`resetData_inj`);
- what is accepted is handed over with one command, and nothing else is (`Session.conducts_verifyPin`,
  `Session.conducts_resetPin`). The command is sent in one piece, so what is sent tells the PINs as well
  (`Session.verifyPin_sent_inj`, `Session.resetPin_sent_inj`).
-/

namespace SecurityKey.Piv

variable {pin p q puk new puk' new' : Pin} {field data : Bytes}

/-! ## Fields -/

/-- The byte that fills up the fields stands in no PIN. -/
theorem ne_filler_of_mem_bytes {b : UInt8} (h : b ∈ pin.bytes) : b ≠ 0xff := by
  rintro rfl
  exact absurd (Bytes.toNat_lt_of_mem_ofString h) (by decide)

/-- A PIN of one to eight bytes is accepted. -/
theorem pinField_eq_ok_iff : pinField pin = .ok field ↔
    (1 ≤ pin.bytes.length ∧ pin.bytes.length ≤ 8) ∧
      field = pin.bytes ++ List.replicate (8 - pin.bytes.length) 0xff := by
  unfold pinField pinFieldLength
  simp only [List.isEmpty_iff_length_eq_zero]
  by_cases hempty : pin.bytes.length = 0
  · rw [if_pos hempty]
    exact ⟨nofun, fun h => absurd hempty (by omega)⟩
  · rw [if_neg hempty]
    by_cases hlong : 8 < pin.bytes.length
    · rw [if_pos hlong]
      exact ⟨nofun, fun h => absurd hlong (by omega)⟩
    · rw [if_neg hlong, Except.ok.injEq, eq_comm, and_iff_right]
      omega

/-- Any other is refused as too short or too long. -/
theorem pinField_eq_error_iff {e : Error} : pinField pin = .error e ↔
    pin.bytes = [] ∧ e = .pinTooShort ∨ 8 < pin.bytes.length ∧ e = .pinTooLong := by
  unfold pinField pinFieldLength
  simp only [List.isEmpty_iff]
  by_cases hempty : pin.bytes = []
  · simp [hempty, eq_comm]
  · rw [if_neg hempty]
    by_cases hlong : 8 < pin.bytes.length
    · simp [hempty, hlong, eq_comm]
    · simp [hempty, hlong]

theorem length_pinField (h : pinField pin = .ok field) : field.length = 8 := by
  obtain ⟨⟨-, hlength⟩, rfl⟩ := pinField_eq_ok_iff.mp h
  rw [List.length_append, List.length_replicate]
  omega

/-- The PIN is what comes before the first byte that fills up its field. -/
theorem takeWhile_pinField (h : pinField pin = .ok field) : field.takeWhile (· ≠ 0xff) = pin.bytes := by
  obtain ⟨-, rfl⟩ := pinField_eq_ok_iff.mp h
  have hpin : ∀ b ∈ pin.bytes, decide (b ≠ 0xff) = true := fun b hb => decide_eq_true (ne_filler_of_mem_bytes hb)
  rw [List.takeWhile_append_of_pos hpin, List.takeWhile_replicate]
  simp

/-- A field is that of one PIN. -/
theorem pinField_inj (hp : pinField p = .ok field) (hq : pinField q = .ok field) : p = q := by
  have hbytes : p.bytes = q.bytes := (takeWhile_pinField hp).symm.trans (takeWhile_pinField hq)
  cases p
  cases q
  exact congrArg Pin.mk (Bytes.ofString_inj hbytes)

namespace Session

/-! ## The data that resets a PIN -/

theorem resetData_eq_ok_iff : resetData puk new = .ok data ↔
    ∃ front back, pinField puk = .ok front ∧ pinField new = .ok back ∧ data = front ++ back := by
  unfold resetData
  constructor
  · intro h
    obtain ⟨front, hfront, h⟩ := Action.bind_eq_ok_iff.mp h
    obtain ⟨back, hback, h⟩ := Action.bind_eq_ok_iff.mp h
    exact ⟨front, back, hfront, hback, (Except.ok.inj h).symm⟩
  · rintro ⟨front, back, hfront, hback, rfl⟩
    rw [hfront, hback]
    rfl

theorem length_resetData (h : resetData puk new = .ok data) : data.length = 16 := by
  obtain ⟨front, back, hfront, hback, rfl⟩ := resetData_eq_ok_iff.mp h
  rw [List.length_append, length_pinField hfront, length_pinField hback]

/-- The data is that of one key and one PIN. -/
theorem resetData_inj (h : resetData puk new = .ok data) (h' : resetData puk' new' = .ok data) :
    puk = puk' ∧ new = new' := by
  obtain ⟨front, back, hfront, hback, rfl⟩ := resetData_eq_ok_iff.mp h
  obtain ⟨front', back', hfront', hback', hdata⟩ := resetData_eq_ok_iff.mp h'
  have hlength : front.length = front'.length := (length_pinField hfront).trans (length_pinField hfront').symm
  obtain ⟨rfl, rfl⟩ := List.append_inj hdata hlength
  exact ⟨pinField_inj hfront hfront', pinField_inj hback hback'⟩

/-! ## What is handed over -/

open Exchange (Conducts Exchanged Recorded recording)

variable {σ : Type} {card : Card σ} {s : Session σ}

/-- Data is handed over with one command if it is accepted, and otherwise nothing happens. -/
def Submits (command : Bytes → Apdu.Command) (accepted : Except Error Bytes) (s : Session σ) (xs : List Exchanged)
    (result : Except Error Unit) (t : Session σ) : Prop :=
  match accepted with
  | .ok data => ∃ answer, xs = [⟨command data, answer⟩]
  | .error e => xs = [] ∧ result = .error e ∧ t = s

theorem conducts_request (c : Apdu.Command) :
    Conducts card chunkSize Session.card (request card c) s fun xs _ _ => ∃ answer, xs = [⟨c, answer⟩] := by
  have htransmit : Conducts card chunkSize Session.card (onCard (Exchange.transmit card c chunkSize)) s
      fun xs _ _ => ∃ answer, xs = [⟨c, answer⟩] :=
    ⟨[⟨c, (Exchange.transmit card c chunkSize s.card).1⟩], .exchange rfl (.nil _), _, rfl⟩
  refine htransmit.bind (fun _ _ _ h => h) ?_
  rintro t xs r - ⟨answer, rfl⟩
  split <;> exact .quiet rfl ⟨answer, rfl⟩

/-- An operation of a session that checks its data, hands it over and notes what came of it. -/
theorem conducts_submit (command : Bytes → Apdu.Command) (accepted : Except Error Bytes) (v : Bool) :
    Conducts card chunkSize Session.card
      (do
        let data ← Action.ofExcept id accepted
        let _ ← request card (command data)
        modify (mark v)) s (Submits command accepted s) := by
  cases accepted with
  | error e => exact .quiet rfl ⟨rfl, rfl, rfl⟩
  | ok data =>
    refine (conducts_request (command data)).bind (fun _ _ _ h => h) ?_
    rintro t xs r - ⟨answer, rfl⟩
    exact .quiet rfl ⟨answer, rfl⟩

/-- The command that verifies a PIN. -/
def verifyCommand (field : Bytes) : Apdu.Command :=
  (Apdu.Command.header 0x00 0x20 0x00 pinReference).withData field

/-- The command that resets a PIN. -/
def resetCommand (data : Bytes) : Apdu.Command := (Apdu.Command.header 0x00 0x2c 0x00 pinReference).withData data

theorem conducts_verifyPin (h : s.pinVerified = false) :
    Conducts card chunkSize Session.card (verifyPin card pin) s (Submits verifyCommand (pinField pin) s) := by
  refine .of_run ?_ rfl (conducts_submit verifyCommand (pinField pin) true)
  unfold verifyPin
  rw [Action.run_bind, Action.run_get]
  simp only [h]
  rfl

theorem conducts_resetPin :
    Conducts card chunkSize Session.card (resetPin card puk new) s (Submits resetCommand (resetData puk new) s) :=
  conducts_submit resetCommand (resetData puk new) false

/-! ## On the wire -/

section Wire

variable {τ : Type} {card' : Card τ} {s : Session (Recorded σ)} {s' : Session (Recorded τ)}

/-- Data that one byte can count is sent in one piece. -/
theorem fits_short_withData {cla ins p1 p2 : UInt8} {data : Bytes} (h : data.length ≤ 255) :
    ((Apdu.Command.header cla ins p1 p2).withData data).fits .short = true :=
  Bool.and_eq_true_iff.mpr ⟨decide_eq_true h, rfl⟩

/-- Two operations that hand over accepted data, each in one piece, and are sent alike hand over the same data. -/
theorem Submits.command_eq {command : Bytes → Apdu.Command} {accepted accepted' : Except Error Bytes}
    {a : Action (Session (Recorded σ)) Error Unit} {a' : Action (Session (Recorded τ)) Error Unit}
    (ha : Conducts (recording card) chunkSize Session.card a s (Submits command accepted s))
    (ha' : Conducts (recording card') chunkSize Session.card a' s' (Submits command accepted' s'))
    (hfits : ∀ data, accepted = .ok data ∨ accepted' = .ok data → (command data).fits .short = true)
    (hs : s.card.sent = s'.card.sent) (hsent : (a s).2.card.sent = (a' s').2.card.sent) (h : accepted = .ok data) :
    ∃ data', accepted' = .ok data' ∧ command data = command data' := by
  subst h
  obtain ⟨xs, hx, answer, rfl⟩ := ha
  obtain ⟨rest, hrest⟩ := hx.begins card (hfits data (.inl rfl))
  cases accepted' with
  | error e =>
    -- nothing was sent, but the command was
    obtain ⟨-, -, -, -, ht⟩ := ha'
    rw [ht, hrest, ← hs] at hsent
    simp at hsent
  | ok data' =>
    obtain ⟨xs', hx', answer', rfl⟩ := ha'
    obtain ⟨rest', hrest'⟩ := hx'.begins card' (hfits data' (.inr rfl))
    rw [hrest, hrest', ← hs] at hsent
    exact ⟨data', rfl, (List.cons.inj (List.append_cancel_left hsent)).1⟩

/-- Sessions in which no PIN was verified send alike only for the same PIN. -/
theorem verifyPin_sent_inj (hs : s.pinVerified = false) (hs' : s'.pinVerified = false)
    (hequal : s.card.sent = s'.card.sent) (h : pinField p = .ok field)
    (hsent : (verifyPin (recording card) p s).2.card.sent = (verifyPin (recording card') q s').2.card.sent) :
    p = q := by
  have hfits : ∀ data, pinField p = .ok data ∨ pinField q = .ok data → (verifyCommand data).fits .short = true := by
    rintro data (h | h) <;> exact fits_short_withData (by rw [length_pinField h]; decide)
  obtain ⟨field', h', hcommand⟩ :=
    Submits.command_eq (conducts_verifyPin hs) (conducts_verifyPin hs') hfits hequal hsent h
  obtain rfl : field = field' := congrArg Apdu.Command.data hcommand
  exact pinField_inj h h'

/-- Resets are sent alike only for the same key and PIN. -/
theorem resetPin_sent_inj (hs : s.card.sent = s'.card.sent) (h : resetData puk new = .ok data)
    (hsent : (resetPin (recording card) puk new s).2.card.sent =
      (resetPin (recording card') puk' new' s').2.card.sent) :
    puk = puk' ∧ new = new' := by
  have hfits : ∀ data, resetData puk new = .ok data ∨ resetData puk' new' = .ok data →
      (resetCommand data).fits .short = true := by
    rintro data (h | h) <;> exact fits_short_withData (by rw [length_resetData h]; decide)
  obtain ⟨data', h', hcommand⟩ := Submits.command_eq conducts_resetPin conducts_resetPin hfits hs hsent h
  obtain rfl : data = data' := congrArg Apdu.Command.data hcommand
  exact resetData_inj h h'

end Wire

/-! ## All together -/

/-- **Fields of PINs are unambiguous.** Exactly the PINs of one to eight bytes are accepted, others are refused as too
short or too long, and each accepted one has a field of eight bytes of its own. Each accepted pair of an unblocking key
and a new PIN has sixteen bytes of its own. What is sent tells an accepted PIN from any other, where none was verified
before, and an accepted pair from any other pair. -/
theorem pinFields_unambiguous :
    (∀ pin : Pin, ((∃ field, pinField pin = .ok field) ↔ 1 ≤ pin.bytes.length ∧ pin.bytes.length ≤ 8) ∧
      ∀ e, pinField pin = .error e ↔
        pin.bytes = [] ∧ e = .pinTooShort ∨ 8 < pin.bytes.length ∧ e = .pinTooLong) ∧
    (∀ (p : Pin) (field : Bytes), pinField p = .ok field →
      field.length = 8 ∧ ∀ q, pinField q = .ok field → p = q) ∧
    (∀ (puk new : Pin) (data : Bytes), resetData puk new = .ok data →
      data.length = 16 ∧ ∀ puk' new', resetData puk' new' = .ok data → puk = puk' ∧ new = new') ∧
    ∀ {σ τ : Type} (card : Card σ) (card' : Card τ) (s : Session (Recorded σ)) (s' : Session (Recorded τ)),
      s.card.sent = s'.card.sent →
      (s.pinVerified = false → s'.pinVerified = false → ∀ (p q : Pin) (field : Bytes), pinField p = .ok field →
        (verifyPin (recording card) p s).2.card.sent = (verifyPin (recording card') q s').2.card.sent → p = q) ∧
      ∀ (puk new puk' new' : Pin) (data : Bytes), resetData puk new = .ok data →
        (resetPin (recording card) puk new s).2.card.sent = (resetPin (recording card') puk' new' s').2.card.sent →
        puk = puk' ∧ new = new' := by
  refine ⟨?_, ?_, ?_, ?_⟩
  · intro pin
    refine ⟨?_, fun e => pinField_eq_error_iff⟩
    simp only [pinField_eq_ok_iff, exists_and_left, exists_eq, and_true]
  · intro p field h
    exact ⟨length_pinField h, fun q hq => pinField_inj h hq⟩
  · intro puk new data h
    exact ⟨length_resetData h, fun puk' new' h' => resetData_inj h h'⟩
  · intro σ τ card card' s s' hs
    refine ⟨fun hfresh hfresh' p q field h hsent => verifyPin_sent_inj hfresh hfresh' hs h hsent, ?_⟩
    exact fun puk new puk' new' data h hsent => resetPin_sent_inj hs h hsent

/-- A PIN that goes on with the character of the number that fills up the fields is not taken for a shorter one. -/
theorem pinFields_unambiguous_filler :
    let s : Session (Recorded Simulated.Card) := Session.new ⟨.ofScript [], []⟩
    let field : Bytes := [0x31, 0x32, 0x33, 0x34, 0x35, 0x36, 0xff, 0xff]
    pinField ⟨"123456"⟩ = .ok field ∧ field.length = 8 ∧ pinField ⟨"123456\u00ff"⟩ ≠ .ok field ∧
      resetData ⟨"12345678"⟩ ⟨"123456\u00ff"⟩ ≠ resetData ⟨"12345678"⟩ ⟨"123456"⟩ ∧
      (verifyPin (recording Simulated.Card.card) ⟨"123456"⟩ s).2.card.sent ≠
        (verifyPin (recording Simulated.Card.card) ⟨"123456\u00ff"⟩ s).2.card.sent ∧
      (resetPin (recording Simulated.Card.card) ⟨"12345678"⟩ ⟨"123456"⟩ s).2.card.sent ≠
        (resetPin (recording Simulated.Card.card) ⟨"12345678"⟩ ⟨"123456\u00ff"⟩ s).2.card.sent := by
  intro s field
  obtain ⟨-, hfield, hdata, hsent⟩ := pinFields_unambiguous
  obtain ⟨hverify, hreset⟩ := hsent Simulated.Card.card Simulated.Card.card s s rfl
  have hne : (⟨"123456"⟩ : Pin) ≠ ⟨"123456\u00ff"⟩ := by decide
  have hpin : pinField ⟨"123456"⟩ = .ok field := rfl
  have hpair : resetData ⟨"12345678"⟩ ⟨"123456"⟩ =
      .ok ([0x31, 0x32, 0x33, 0x34, 0x35, 0x36, 0x37, 0x38] ++ field) := rfl
  obtain ⟨hlength, hunique⟩ := hfield _ _ hpin
  refine ⟨hpin, hlength, fun h => hne (hunique _ h), ?_, ?_, ?_⟩
  · intro h
    exact hne ((hdata _ _ _ hpair).2 _ _ (h.trans hpair)).2
  · intro h
    exact hne (hverify rfl rfl _ _ _ hpin h)
  · intro h
    exact hne (hreset _ _ _ _ _ hpair h).2

end Session

end SecurityKey.Piv
