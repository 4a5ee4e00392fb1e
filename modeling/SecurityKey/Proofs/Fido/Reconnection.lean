import SecurityKey.Proofs.Fido.Scripted

/-!
# Connecting again

A session whose card has dropped the link by itself still has its flag set, its information and its token. What it
is connected with then may be another authenticator.

- `Session.Tidy`: a session that is not flagged as connected knows neither information nor a token. Every sequence of
  calls, with anything happening to the card in between, leads to a tidy session (`Session.tidy_after`);
- so an attempt to connect ends the session before it in the cases of `Session.endsSession_iff`, and not in the others:
  where the link was lost, the token survives both a successful attempt and one that the card refuses.
-/

namespace SecurityKey.Fido

open Action (Moves)

namespace Session

variable {σ : Type}

/-! ## Tidy sessions -/

/-- The flag of a connection, the information and the token stay as they are. -/
def keeping : Movement (Session σ) where
  rel s t := t.connected = s.connected ∧ t.info = s.info ∧ t.pinToken = s.pinToken
  refl _ := ⟨rfl, rfl, rfl⟩
  trans h h' := ⟨h'.1.trans h.1, h'.2.1.trans h.2.1, h'.2.2.trans h.2.2⟩

/-- A session without the flag of a connection knows nothing that belongs to one. -/
def Tidy (s : Session σ) : Prop := s.connected = false → s.info = none ∧ s.pinToken = none

/-- Tidy sessions stay tidy. -/
def tidying : Movement (Session σ) where
  rel s t := Tidy s → Tidy t
  refl _ := id
  trans h h' hs := h' (h hs)

variable {card : Card σ} {config : Config} {P : Apdu.Command → Prop}

theorem permits_keeping : Permits card config keeping P := fun _ _ _ => ⟨rfl, rfl, rfl⟩

theorem tidying_of_keeping {s t : Session σ} (h : keeping.rel s t) : tidying.rel s t := by
  obtain ⟨hconnected, hinfo, htoken⟩ := h
  intro hs ht
  rw [hinfo, htoken]
  exact hs (hconnected ▸ ht)

theorem tidy_clearPinToken {s : Session σ} (hs : Tidy s) : Tidy s.clearPinToken :=
  fun h => ⟨(hs h).1, rfl⟩

theorem permits_tidying : Permits card config tidying P :=
  fun c hc => (permits_keeping c hc).mono tidying_of_keeping

variable (card config)

theorem tidy_connect : Moves tidying (connect card config) := by
  intro s hs
  rcases hr : connect card config s with ⟨r, t⟩
  cases attempt_of_connect hr with
  | needless => exact hs
  | refused => exact hs
  | failed => exact fun _ => ⟨rfl, rfl⟩
  | completed => exact fun h => nomatch h

end Session

/-! ## Operations on tidy sessions -/

section Operations

open Session (Tidy keeping tidying permits_keeping permits_tidying tidying_of_keeping)

variable {σ : Type} (card : Card σ) (config : Config)

namespace Pin

theorem keeps_getPinToken (secret : Option Bytes) (pin : Pin) (lastAttemptOk : Bool) :
    Moves keeping (getPinToken card config secret pin lastAttemptOk) :=
  moves_getPinToken (P := fun _ => True) permits_keeping (fun _ => trivial) (fun _ _ => ⟨rfl, rfl, rfl⟩) secret pin
    lastAttemptOk

theorem keeps_setPin (secret : Option Bytes) (newPin : Pin) : Moves keeping (setPin card config secret newPin) :=
  moves_setPin (P := fun _ => True) permits_keeping (fun _ => trivial) (fun _ _ => ⟨rfl, rfl, rfl⟩) secret newPin

theorem tidy_changePin (secret : Option Bytes) (current newPin : Pin) (lastAttemptOk : Bool) :
    Moves tidying (changePin card config secret current newPin lastAttemptOk) :=
  moves_changePin (P := fun _ => True) permits_tidying (fun _ => trivial) (fun _ _ hs => hs)
    (fun _ => Session.tidy_clearPinToken) secret current newPin lastAttemptOk

end Pin

namespace Ctap2

/-- A token is cached only where there is information, so only where the session is flagged as connected. -/
theorem tidy_pinAuth (v : Credential.UserVerification) (pin : Option Pin) (lastAttemptOk : Bool)
    (clientDataHash : Bytes) : Moves tidying (pinAuth card config v pin lastAttemptOk clientDataHash) := by
  intro s hs
  rcases hr : pinAuth card config v pin lastAttemptOk clientDataHash s with ⟨r, t⟩
  cases authorisation_of_pinAuth hr with
  | without => exact hs
  | refused => exact hs
  | cached => exact hs
  | failed _ _ h => exact tidying_of_keeping ((Pin.keeps_getPinToken card config none _ lastAttemptOk).of_run h) hs
  | @issued info given u _ _ hinfo h =>
    intro hlost
    have hu : u.connected = s.connected := ((Pin.keeps_getPinToken card config none given lastAttemptOk).of_run h).1
    have hs := (hs (hu ▸ hlost)).1
    rw [hinfo] at hs
    cases hs

end Ctap2

theorem tidy_operation (o : Operation) (c : Command) : Moves tidying (o.execute card config c) :=
  moves_operation permits_tidying (fun _ => Session.tidy_clearPinToken) (Ctap2.tidy_pinAuth card config) o c

theorem tidy_execute (c : Command) : Moves tidying (execute card config c) := by
  refine (Session.tidy_connect card config).bind fun _ => ?_
  refine .get_bind fun s => ?_
  refine Moves.bind (m := tidying) (.ofExcept _ _) (fun o => ?_) s
  exact tidy_operation card config o c

end Operations

/-! ## Sequences of calls -/

/-- What may happen to a session. -/
inductive Happening (σ : Type)
  | connect
  | release
  | clearPinToken
  | transmit (c : Apdu.Command)
  | execute (c : Command)
  /-- An operation without the connection before it. -/
  | carryOut (o : Operation) (c : Command)
  | getRetries
  | getPinToken (secret : Option Bytes) (pin : Pin) (lastAttemptOk : Bool)
  | setPin (secret : Option Bytes) (newPin : Pin)
  | changePin (secret : Option Bytes) (current newPin : Pin) (lastAttemptOk : Bool)
  /-- Something happens to the card by itself: it may be taken away, lose the link or be another one. -/
  | elapse (f : σ → σ)

namespace Session

variable {σ : Type} (card : Card σ) (config : Config)

/-- The session after something happened to it. -/
def happen (s : Session σ) : Happening σ → Session σ
  | .connect => (connect card config s).2
  | .release => release card s
  | .clearPinToken => s.clearPinToken
  | .transmit c => (transmit card config c s).2
  | .execute c => (execute card config c s).2
  | .carryOut o c => (o.execute card config c s).2
  | .getRetries => (Pin.getRetries card config s).2
  | .getPinToken secret pin lastAttemptOk => (Pin.getPinToken card config secret pin lastAttemptOk s).2
  | .setPin secret newPin => (Pin.setPin card config secret newPin s).2
  | .changePin secret current newPin lastAttemptOk =>
    (Pin.changePin card config secret current newPin lastAttemptOk s).2
  | .elapse f => { s with card := f s.card }

/-- A session over a card in the given state, after everything that happened to it. -/
def after (c : σ) (happenings : List (Happening σ)) : Session σ := happenings.foldl (happen card config) (new c)

theorem tidy_happen {s : Session σ} (hs : Tidy s) (h : Happening σ) : Tidy (happen card config s h) := by
  cases h with
  | connect => exact tidy_connect card config s hs
  | release => exact fun _ => ⟨rfl, rfl⟩
  | clearPinToken => exact tidy_clearPinToken hs
  | transmit c => exact permits_tidying (P := fun _ => True) c trivial s hs
  | execute c => exact tidy_execute card config c s hs
  | carryOut o c => exact tidy_operation card config o c s hs
  | getRetries =>
    exact Pin.moves_getRetries (P := fun _ => True) permits_tidying (fun _ => trivial) s hs
  | getPinToken secret pin lastAttemptOk =>
    exact tidying_of_keeping (Pin.keeps_getPinToken card config secret pin lastAttemptOk s) hs
  | setPin secret newPin => exact tidying_of_keeping (Pin.keeps_setPin card config secret newPin s) hs
  | changePin secret current newPin lastAttemptOk =>
    exact Pin.tidy_changePin card config secret current newPin lastAttemptOk s hs
  | elapse f => exact hs

theorem tidy_after (c : σ) (happenings : List (Happening σ)) : Tidy (after card config c happenings) := by
  have h : ∀ s : Session σ, Tidy s → Tidy (happenings.foldl (happen card config) s) := by
    induction happenings with
    | nil => exact fun _ hs => hs
    | cons h rest ih => exact fun s hs => ih _ (tidy_happen card config hs h)
  exact h (new c) fun _ => ⟨rfl, rfl⟩

/-! ## Ending the session before -/

/-- A connection that is needed ends the session before it: its token is gone, and where the attempt fails nothing is
left of it. -/
def EndsSession (s : Session σ) : Prop :=
  s.isConnected card = false →
    (∀ token, s.pinToken = some token → (connect card config s).2.pinToken ≠ some token) ∧
    ((connect card config s).1 ≠ .ok () →
      (connect card config s).2.info = none ∧ (connect card config s).2.isConnected card = false)

/-- What an attempt to connect has to come upon to end a session whose link was lost. -/
def Clears (s : Session σ) : Prop :=
  ((card.connect s.card).1 = .ok () ∧ (connect card config s).1 ≠ .ok ()) ∨
    (s.pinToken = none ∧
      ((card.connect s.card).1 = .ok () ∨ (s.info = none ∧ card.isConnected (card.connect s.card).2 = false)))

theorem endsSession_of_tidy {s : Session σ} (hs : Tidy s) :
    EndsSession card config s ↔ s.isConnected card = true ∨ s.connected = false ∨ Clears card config s := by
  by_cases hconnected : s.isConnected card = true
  · simp [EndsSession, hconnected]
  rw [Bool.not_eq_true] at hconnected
  rcases hr : connect card config s with ⟨r, t⟩
  have hattempt := attempt_of_connect hr
  by_cases hflag : s.connected = false
  · -- nothing is known, and nothing is learnt without a connection
    obtain ⟨hinfo, htoken⟩ := hs hflag
    have hends : EndsSession card config s := by
      intro _
      rw [hr]
      refine ⟨fun token h => ?_, fun h => ?_⟩
      · rw [htoken] at h
        cases h
      · cases hattempt with
        | needless => exact absurd rfl h
        | refused => exact ⟨hinfo, by simp [isConnected, hflag]⟩
        | failed => exact ⟨rfl, rfl⟩
        | completed => exact absurd rfl h
    simp [hends, hflag]
  rw [Bool.not_eq_false] at hflag
  have hlost : card.isConnected s.card = false := by simpa [isConnected, hflag] using hconnected
  have hopened : ∀ {u}, Opens card s u → (card.connect s.card).1 = .ok () ∧ u.pinToken = s.pinToken := by
    intro u h
    cases h with
    | ready h => rw [hlost] at h; cases h
    | connected _ h => rw [h]; exact ⟨rfl, rfl⟩
  have hforgets : (∀ token, ¬ s.pinToken = some token) ↔ s.pinToken = none :=
    Option.eq_none_iff_forall_ne_some.symm
  unfold EndsSession Clears
  rw [hr]
  cases hattempt with
  | needless h => rw [hconnected] at h; cases h
  | refused _ _ h => simp [h, hlost, hflag, hforgets, isConnected]
  | failed _ hopen h => simp [hflag, (hopened hopen).1, release, isConnected]
  | @completed u v _ hopen h =>
    obtain ⟨hconnect, htoken⟩ := hopened hopen
    have hkept : v.pinToken = u.pinToken := ((moves_greet_conversing card config).of_run h).1
    simp [hconnected, hflag, hconnect, hkept, htoken, hforgets]

/-- After every sequence of calls, a connection that is needed ends the session before it exactly in these cases: the
session was released or never connected, the dialogue with the card that was connected again fails, or there was no
token and the card either is connected again or leaves nothing behind. -/
theorem endsSession_after_iff (c : σ) (happenings : List (Happening σ)) :
    let s := after card config c happenings
    EndsSession card config s ↔ s.isConnected card = true ∨ s.connected = false ∨ Clears card config s :=
  endsSession_of_tidy card config (tidy_after card config c happenings)

/-! ## A session that is not ended -/

/-- The answer of an authenticator that speaks CTAP2 and has a PIN. -/
def informationAnswer : Bytes :=
  [0x00, 0xa3, 0x01, 0x81, 0x68] ++ Bytes.ofString "FIDO_2_0" ++ [0x03, 0x50] ++ List.replicate 16 0 ++
    [0x04, 0xa1, 0x69] ++ Bytes.ofString "clientPin" ++ [0xf5]

/-- A connection with an authenticator that gives this answer. -/
theorem connect_informed (config : Config) {s : Session Simulated.Card} {answers : List Bytes}
    (h : s.card.Scripted (Bytes.ofString "FIDO_2_0" :: informationAnswer :: answers)) (hs : s.connected = false)
    (hconfig : config.selectApplet = true ∧ config.forceCtap1 = false) :
    ∃ info t, connect Simulated.Card.card config s = (.ok (), t) ∧ t.connected = true ∧ t.info = some info ∧
      (info.supportsClientPin && info.isPinSet) = true ∧ t.pinToken = s.pinToken ∧ t.card.Scripted answers := by
  have hinformation : ((informationOf informationAnswer).map fun info => info.supportsClientPin && info.isPinSet) =
      some true := by decide +kernel
  obtain ⟨info, hread, hset⟩ := Option.map_eq_some_iff.mp hinformation
  obtain ⟨t, hconnect, ht, hinfo, htoken, hrest⟩ := connect_scripted config h hs hconfig (by decide +kernel) hread
  exact ⟨info, t, hconnect, ht, hinfo, hset, htoken, hrest⟩

/-- A card that gives a token for any PIN, and then lets a command wait in vain for a touch. -/
def tokenCard : Simulated.Card where
  connected := true
  extended := true
  connects := []
  replies := [Bytes.ofString "FIDO_2_0", informationAnswer, Pin.retriesAnswer, Pin.keyAnswer, Pin.tokenAnswer,
    [0x2f]].map fun data => .bytes (Apdu.Response.ok data).toBytes
  authenticator := none
  sensor := .attended
  interruption := none
  record := []

/-- A credential with a PIN. -/
def creationWithPin : Creation :=
  { Creation.standard (.zero 32) ⟨"example.com", none, none⟩ ⟨[], none, none, none⟩ with pin := some ⟨"1234"⟩ }

/-- A link that is lost and cannot be connected again. -/
def loseLink (c : Simulated.Card) : Simulated.Card :=
  { c with connected := false, connects := [some .deviceNotFound] }

/-- A token is cached although the command it was made for fails. -/
theorem token_of_makeCredential (config : Config) {s : Session Simulated.Card} {info : Ctap.Info}
    (h : s.card.Scripted [Pin.retriesAnswer, Pin.keyAnswer, Pin.tokenAnswer, [0x2f]])
    (hkey : config.freshKey s.keysMade = Pin.pairOfOne) (hinfo : s.info = some info)
    (hset : (info.supportsClientPin && info.isPinSet) = true) (hnone : s.pinToken = none) :
    ∃ r t, Ctap2.makeCredential Simulated.Card.card config creationWithPin s = (r, t) ∧ t.connected = s.connected ∧
      t.pinToken ≠ none ∧ t.card.Scripted [] := by
  obtain ⟨token, t, hauth, htoken, hconnected, hscript⟩ := Ctap2.pinAuth_scripted config (v := .preferred) ⟨"1234"⟩
    false (Bytes.Sized.zero 32).val h hkey hinfo hset hnone rfl
  obtain ⟨c', htransmit, hover⟩ := transmit_scripted config hscript
    (ctap2Apdu (Ctap2.creationRequest creationWithPin (some (token.authenticate (Bytes.Sized.zero 32).val))).toBytes)
  have hbody : ctap2RequestBody Simulated.Card.card config
      (Ctap2.creationRequest creationWithPin (some (token.authenticate (Bytes.Sized.zero 32).val))).toBytes t =
      (.error .timeout, { t with card := c' }) := by
    unfold ctap2RequestBody
    rw [Action.run_bind, ctap2Request_of_transmit htransmit]
    rfl
  refine ⟨.error .timeout, { t with card := c' }, ?_, hconnected, ?_, hover⟩
  · unfold Ctap2.makeCredential
    refine (Action.bind_of_ok hauth _).trans (Action.bind_of_error ?_ _)
    unfold Ctap2.privilegedRequest
    rw [Action.run_bind, Action.run_observe, hbody]
    rfl
  · show t.pinToken ≠ none
    rw [htoken]
    exact nofun

/-- Where the link is lost and cannot be connected again, the session goes on with its token and its information. -/
theorem not_endsSession_lost_link :
    ¬ EndsSession Simulated.Card.card (.standard fun _ => Pin.pairOfOne)
      (after Simulated.Card.card (.standard fun _ => Pin.pairOfOne) tokenCard
        [.connect, .carryOut .ctap2MakeCredential (.create creationWithPin), .elapse loseLink]) := by
  have hscript : tokenCard.Scripted [Bytes.ofString "FIDO_2_0", informationAnswer, Pin.retriesAnswer, Pin.keyAnswer,
      Pin.tokenAnswer, [0x2f]] := ⟨rfl, rfl, rfl, rfl⟩
  obtain ⟨info, s, hconnect, hs, hinfo, hset, htoken, hrest⟩ := connect_informed (.standard fun _ => Pin.pairOfOne)
    (s := new tokenCard) hscript rfl ⟨rfl, rfl⟩
  obtain ⟨r, t, hmake, ht, hcached, hover⟩ := token_of_makeCredential (.standard fun _ => Pin.pairOfOne)
    hrest rfl hinfo hset htoken
  have hafter : after Simulated.Card.card (.standard fun _ => Pin.pairOfOne) tokenCard
      [.connect, .carryOut .ctap2MakeCredential (.create creationWithPin), .elapse loseLink] =
      { t with card := loseLink t.card } := by
    simp only [after, List.foldl_cons, List.foldl_nil, happen, hconnect, Operation.execute, Action.run_map, hmake]
  rw [endsSession_of_tidy _ _ (tidy_after _ _ _ _), hafter]
  have hflag : t.connected = true := ht.trans hs
  have hrefused : (Simulated.Card.card.connect (loseLink t.card)).1 = .error .deviceNotFound := by
    have hundisturbed : (loseLink t.card).interruption = none := hover.undisturbed
    show (Simulated.Card.unlessInterrupted Simulated.Card.connect (loseLink t.card)).1 = _
    unfold Simulated.Card.unlessInterrupted
    rw [Action.run_bind, Action.run_get]
    simp only [hundisturbed]
    rfl
  rintro (h | h | ⟨h, -⟩ | ⟨h, -⟩)
  · simp [isConnected, Simulated.Card.card, loseLink] at h
  · rw [hflag] at h
    cases h
  · rw [hrefused] at h
    cases h
  · exact hcached h

end Session

end SecurityKey.Fido
