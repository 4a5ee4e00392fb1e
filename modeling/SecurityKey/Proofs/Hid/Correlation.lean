import SecurityKey.Proofs.Hid.Respondent

/-!
# Answers and their messages

Which of its replies a respondent's answer is, when the host takes it for the answer to the message of a call.

- an answer is the first message on the channel, among those still to be read and those sent on account of the call,
  that is not passed over (`finds_of_transactWith`);
- so it was given during the call if and only if everything given before and still unread on the channel is passed over
  (`answered_in_call_iff`). An answer that comes late is taken for the answer to the next message
  (`not_correlated_late`).
-/

namespace SecurityKey.Hid.Respondent

variable {δ : Type} {r : Respondent δ} {config : Config} {l l' : Link δ}

/-! ## One attempt -/

/-- One exchange on a stream that messages spell. -/
theorem exchange_outcome {channel : UInt32} {ms : List Message} (hs : Spells (r.stream l) ms) (command : Command)
    (payload : Bytes) {result : Except SecurityKey.Link.Error Bytes}
    (h : Link.exchange r.device config channel command payload l = (result, l')) :
    (∃ e, result = .error e ∧ e.isRetryable = false) ∨
      ∃ given news, r.replies l'.device = r.replies l.device ++ given ∧
        news.filter Message.isAnswer = given.map Reply.answer ∧
        Link.Outcome channel command (ms ++ news) result (r.stream l') := by
  rw [Link.run_exchange] at h
  split at h
  · rename_i e t ht
    obtain ⟨rfl, -⟩ := Prod.mk.inj h
    exact .inl ⟨e, rfl, Link.isRetryable_send ht⟩
  · rename_i t ht
    obtain ⟨rfl, rfl⟩ := Prod.mk.inj h
    obtain ⟨⟨given, news, hd⟩, -⟩ := delivers_send ht
    have hs := hs.append hd.fits
    rw [← hd.stream] at hs
    exact .inr ⟨given, news, hd.replies, hd.answers, (Link.readAnswer_outcome t.inbox).1 hs⟩

/-- One exchange on a stream that goes on in the middle of a message. -/
theorem exchange_of_stuck {channel : UInt32} (hs : Link.Stuck channel (r.stream l)) (command : Command)
    (payload : Bytes) {result : Except SecurityKey.Link.Error Bytes}
    (h : Link.exchange r.device config channel command payload l = (result, l')) :
    ∃ e, result = .error e ∧ (e.isRetryable = true → Link.Stuck channel (r.stream l')) := by
  rw [Link.run_exchange] at h
  split at h
  · rename_i e t ht
    obtain ⟨rfl, -⟩ := Prod.mk.inj h
    refine ⟨e, rfl, fun hr => ?_⟩
    rw [Link.isRetryable_send ht] at hr
    cases hr
  · rename_i t ht
    obtain ⟨rfl, rfl⟩ := Prod.mk.inj h
    obtain ⟨⟨given, news, hd⟩, -⟩ := delivers_send ht
    have hs : Link.Stuck channel (r.stream t) := by
      obtain ⟨p, rest, hp, hi, hc⟩ := hs
      exact ⟨p, rest ++ wire news, by rw [hd.stream, hp, List.cons_append], hi, hc⟩
    exact Link.readAnswer_of_stuck hs

/-! ## All attempts -/

/-- In the middle of a message no attempt brings an answer. -/
theorem transactWith_of_stuck {a : Allocation} {command : Command} {payload data : Bytes} (retries : Nat) :
    ∀ {l : Link δ}, l.channel = .allocated a → Link.Stuck a.channel (r.stream l) →
      (Link.transactWith r.device config command payload retries l).1 ≠ .ok data := by
  have hone : ∀ {again : Action (Link δ) SecurityKey.Link.Error Bytes} {l : Link δ}, l.channel = .allocated a →
      Link.Stuck a.channel (r.stream l) →
      (∀ {l : Link δ}, l.channel = .allocated a → Link.Stuck a.channel (r.stream l) → (again l).1 ≠ .ok data) →
      (Link.attemptOr r.device config again command payload l).1 ≠ .ok data := by
    intro again l hc hs hagain
    rw [Link.run_attemptOr, Link.run_attempt_allocated _ _ hc]
    have hct := Link.channel_exchange r.device config a.channel command payload l
    rcases h : Link.exchange r.device config a.channel command payload l with ⟨result, t⟩
    obtain ⟨e, rfl, hr⟩ := exchange_of_stuck hs command payload h
    rw [h, hc] at hct
    simp only
    split
    · rename_i he
      exact hagain hct (hr he)
    · simp
  induction retries with
  | zero => exact fun hc hs => hone hc hs fun _ _ => by simp
  | succ retries ih => exact fun hc hs => hone hc hs ih

variable (r) in
/-- Between two links an answer was found: it is the first message on its channel, among those that spelled the stream
and those that were added, that is not passed over. -/
def Finds (channel : UInt32) (command : Command) (data : Bytes) (ms : List Message) (l l' : Link δ) : Prop :=
  ∃ given news before after, r.replies l'.device = r.replies l.device ++ given ∧
    news.filter Message.isAnswer = given.map Reply.answer ∧
    ms ++ news = before ++ ⟨channel, command, data⟩ :: after ∧
    (∀ m ∈ before, m.channel = channel → m.isPassedOver = true) ∧
    command ≠ .keepalive ∧ command ≠ .error ∧ Spells (r.stream l') after

/-- An answer is found behind messages that are passed over. -/
theorem Finds.behind {channel : UInt32} {command : Command} {data : Bytes} {ms news before after : List Message}
    {given : List Reply} {t : Link δ} (hg : r.replies t.device = r.replies l.device ++ given)
    (hn : news.filter Message.isAnswer = given.map Reply.answer) (hms : ms ++ news = before ++ after)
    (hb : ∀ m ∈ before, m.channel = channel → m.isPassedOver = true) (h : r.Finds channel command data after t l') :
    r.Finds channel command data ms l l' := by
  obtain ⟨given', news', before', after', hg', hn', hms', hb', hk, hx, hl⟩ := h
  refine ⟨given ++ given', news ++ news', before ++ before', after', ?_, ?_, ?_, ?_, hk, hx, hl⟩
  · rw [hg', hg, List.append_assoc]
  · rw [List.filter_append, hn, hn', List.map_append]
  · rw [← List.append_assoc, hms, List.append_assoc, hms', List.append_assoc]
  · intro m hm
    rcases List.mem_append.mp hm with hm | hm
    · exact hb m hm
    · exact hb' m hm

/-- An answer is found by the first attempt, or by those that follow where the first may be followed. -/
theorem finds_of_attemptOr {a : Allocation} {command : Command} {payload data : Bytes} {ms : List Message}
    {again : Action (Link δ) SecurityKey.Link.Error Bytes} (hc : l.channel = .allocated a)
    (hs : Spells (r.stream l) ms)
    (hagain : ∀ {t : Link δ} {ms : List Message}, t.channel = .allocated a → Spells (r.stream t) ms →
      again t = (.ok data, l') → r.Finds a.channel command data ms t l')
    (hstuck : ∀ {t : Link δ}, t.channel = .allocated a → Link.Stuck a.channel (r.stream t) →
      (again t).1 ≠ .ok data)
    (h : Link.attemptOr r.device config again command payload l = (.ok data, l')) :
    r.Finds a.channel command data ms l l' := by
  rw [Link.run_attemptOr, Link.run_attempt_allocated _ _ hc] at h
  have hct := Link.channel_exchange r.device config a.channel command payload l
  rcases he : Link.exchange r.device config a.channel command payload l with ⟨result, t⟩
  rw [he] at h hct
  rw [hc] at hct
  -- where an attempt is not followed by another one, the error is what the call returns
  have hended : ∀ {e : SecurityKey.Link.Error}, result = .error e → e.isRetryable = false → False := by
    rintro e rfl hr
    simp only [hr, Bool.false_eq_true, if_false] at h
    cases (Prod.mk.inj h).1
  rcases exchange_outcome hs command payload he with ⟨e, hre, hr⟩ | ⟨given, news, hg, hn, ho⟩
  · exact (hended hre hr).elim
  generalize hms : ms ++ news = all at ho
  cases ho with
  | answer before hb hk hx hl =>
    obtain ⟨hd, rfl⟩ := Prod.mk.inj h
    obtain rfl := Except.ok.inj hd
    exact ⟨given, news, before, _, hg, hn, hms, hb, hk, hx, hl⟩
  | failed hr => exact (hended rfl hr).elim
  | @stuck _ e _ hs =>
    by_cases hr : e.isRetryable = true
    · simp only [hr, if_true] at h
      exact absurd (congrArg Prod.fst h) (hstuck hct hs)
    · exact (hended rfl (Bool.eq_false_iff.mpr hr)).elim
  | @again before _ e _ hb hl =>
    by_cases hr : e.isRetryable = true
    · simp only [hr, if_true] at h
      exact (hagain hct hl h).behind hg hn hms hb
    · exact (hended rfl (Bool.eq_false_iff.mpr hr)).elim

/-- An answer is found on the channel of the message. -/
theorem finds_of_transactWith {a : Allocation} {command : Command} {payload data : Bytes} (retries : Nat) :
    ∀ {l l' : Link δ} {ms : List Message}, l.channel = .allocated a → Spells (r.stream l) ms →
      Link.transactWith r.device config command payload retries l = (.ok data, l') →
      r.Finds a.channel command data ms l l' := by
  induction retries with
  | zero =>
    intro l l' ms hc hs h
    exact finds_of_attemptOr hc hs (fun _ _ ht => by cases (Prod.mk.inj ht).1) (fun _ _ => by simp) h
  | succ retries ih =>
    intro l l' ms hc hs h
    exact finds_of_attemptOr hc hs (fun hc hs ht => ih hc hs ht) (transactWith_of_stuck retries) h

/-! ## A device that repeats messages -/

/-- The answer that repeats a message. A handshake is answered with channel 1. -/
def echo (m : Message) : Message where
  channel := m.channel
  command := if m.command = .keepalive then .error else m.command
  data := (if m.command = .init then m.data ++ [0, 0, 0, 1, 2, 0, 0, 0, 0] else m.data).take maxMessageSize

theorem isAnswer_echo (m : Message) : (echo m).isAnswer = true := by
  by_cases h : m.command = .keepalive <;> simp [Message.isAnswer, echo, h]

theorem fits_echo (m : Message) : (echo m).Fits := by
  show (List.take _ _).length ≤ _
  rw [List.length_take]
  exact Nat.min_le_left ..

/-- A device that repeats every message. Before the answer to some messages it pauses. -/
def echoing (late : Nat → Bool) : Respondent Hearing where
  device p h :=
    let answers := (hearPacket h.listener p).1.toList.map echo
    let pause : List Event := if late h.messages.length then [.quiet 1] else []
    ⟨.ok (), 0, if answers.isEmpty then [] else pause ++ (wire answers).map .packet, h.hear p⟩
  start := .silence
  hearing := id
  replies h := h.messages.map fun m => ⟨m, echo m⟩
  owed _ := []
  hearing_start := rfl
  owed_start := rfl
  hears p h := rfl
  answers_once h := by simp [Function.comp_def]
  answers_on_channel h x hx := by
    obtain ⟨m, -, rfl⟩ := List.mem_map.mp hx
    rfl
  delivers p h := by
    refine ⟨(hearPacket h.listener p).1.toList.map fun m => ⟨m, echo m⟩, (hearPacket h.listener p).1.toList.map echo,
      ?_, ?_, ?_, ?_⟩
    · exact List.map_append
    · rw [List.map_map, List.filter_eq_self.mpr]
      · rfl
      · intro x hx
        obtain ⟨m, -, rfl⟩ := List.mem_map.mp hx
        exact isAnswer_echo m
    · intro x hx
      obtain ⟨m, -, rfl⟩ := List.mem_map.mp hx
      exact fits_echo m
    · cases (hearPacket h.listener p).1 with
      | none => rfl
      | some m =>
        simp only [Option.toList_some, List.map_cons, List.map_nil, List.isEmpty_cons, Bool.false_eq_true, if_false,
          List.append_nil, List.nil_append]
        split
        · exact packetsIn_map _
        · exact packetsIn_map _

/-- A device that repeats every message at once. -/
def prompt : Respondent Hearing := echoing fun _ => false

/-- The usual limits, with the same nonce in every handshake. -/
def zeroNonces : Config := .standard fun _ => .ofPrefix 8 []

/-! ## Calls -/

variable (r) in
/-- The answers unread on a link that are among the first `n` replies. -/
def unreadOf (n : Nat) (l : Link δ) : List Message :=
  (r.unread l).take (n - ((r.replies l.device).length - (r.unread l).length))

variable (r) in
/-- A reply is the one whose answer was read last: its number, and the answers still to be read behind it. -/
def ReadLast (l : Link δ) (k : Nat) (x : Reply) : Prop :=
  (r.replies l.device)[k]? = some x ∧ (r.replies l.device).length = k + 1 + (r.unread l).length

/-- A list up to a place has a property throughout if and only if that place is not behind the first that lacks it. -/
theorem forall_mem_take_iff {α : Type} {P : α → Prop} {front back : List α} {x : α} (hf : ∀ y ∈ front, P y)
    (hx : ¬ P x) (n : Nat) : (∀ y ∈ (front ++ x :: back).take n, P y) ↔ n ≤ front.length := by
  constructor
  · intro h
    apply Nat.le_of_not_lt
    intro hn
    obtain ⟨k, hk⟩ : ∃ k, n - front.length = k + 1 := ⟨n - front.length - 1, by omega⟩
    refine hx (h x ?_)
    rw [List.take_append, hk, List.take_succ_cons]
    simp
  · intro hn y hy
    rw [List.take_append_of_le_length hn] at hy
    exact hf y (List.mem_of_mem_take hy)

/-- There are as many replies as messages heard. -/
theorem length_replies (l : Link δ) : (r.replies l.device).length = (r.heard l).length := by
  rw [Respondent.heard, ← r.answers_once, List.length_map]

/-- Where an answer was found among all answers: behind those that were read or lost before, and behind those that are
passed over. -/
theorem Finds.split {channel : UInt32} {command : Command} {data : Bytes} {ms : List Message}
    (hs : Spells (r.stream l) ms) (hin : ms.filter Message.isAnswer <:+ (r.replies l.device).map Reply.answer)
    (h : r.Finds channel command data ms l l') :
    ∃ front early, (r.replies l'.device).map Reply.answer =
        (front ++ early) ++ ⟨channel, command, data⟩ :: r.unread l' ∧
      (r.replies l.device).length = front.length + (r.unread l).length ∧
      r.unread l <+: early ++ ⟨channel, command, data⟩ :: r.unread l' ∧
      ∀ m ∈ early, m.channel = channel → m.isPassedOver = true := by
  obtain ⟨given, news, before, after, hg, ha, hms, hb, hk, -, hl⟩ := h
  obtain ⟨front, hfront⟩ := hin
  have hunread : r.unread l = ms.filter Message.isAnswer := by rw [unread, messagesIn_of_spells hs]
  have hunread' : r.unread l' = after.filter Message.isAnswer := by rw [unread, messagesIn_of_spells hl]
  have hanswer : Message.isAnswer ⟨channel, command, data⟩ = true := by simp [Message.isAnswer, hk]
  have hsplit : r.unread l ++ news.filter Message.isAnswer =
      before.filter Message.isAnswer ++ ⟨channel, command, data⟩ :: r.unread l' := by
    rw [hunread, hunread', ← List.filter_append, hms, List.filter_append, List.filter_cons, if_pos hanswer]
  refine ⟨front, before.filter Message.isAnswer, ?_, ?_, ⟨_, hsplit⟩, fun m hm => hb m (List.mem_filter.mp hm).1⟩
  · rw [hg, List.map_append, ← hfront, ← hunread, ← ha, List.append_assoc, hsplit, List.append_assoc]
  · have hlength := congrArg List.length hfront
    rw [List.length_append, List.length_map] at hlength
    rw [hunread, hlength]

/-- The reply that an answer is, by its number, when the host found it on a link in step. -/
theorem Finds.reply {channel : UInt32} {command : Command} {data : Bytes} {ms : List Message}
    (hs : Spells (r.stream l) ms) (hin : ms.filter Message.isAnswer <:+ (r.replies l.device).map Reply.answer)
    (h : r.Finds channel command data ms l l') (n : Nat) (hn : n ≤ (r.replies l.device).length) :
    ∃ k request, r.ReadLast l' k ⟨request, ⟨channel, command, data⟩⟩ ∧
      (n ≤ k ↔ ∀ a ∈ r.unreadOf n l, a.channel = channel → a.isPassedOver = true) := by
  obtain ⟨front, early, hall, hlength, ⟨later, hunread⟩, hearly⟩ := h.split hs hin
  obtain ⟨-, -, -, -, -, -, -, -, hk, hx, -⟩ := h
  have hget : ((r.replies l'.device).map Reply.answer)[front.length + early.length]? =
      some ⟨channel, command, data⟩ := by
    rw [hall, ← List.length_append, List.getElem?_append_right (Nat.le_refl _), Nat.sub_self, List.getElem?_cons_zero]
  obtain ⟨⟨request, answer⟩, hreply, rfl⟩ := Option.map_eq_some_iff.mp (List.getElem?_map .. ▸ hget)
  have hcount := congrArg List.length hall
  simp only [List.length_map, List.length_append, List.length_cons] at hcount
  have htake : r.unreadOf n l = (early ++ ⟨channel, command, data⟩ :: r.unread l').take (n - front.length) := by
    rw [unreadOf, hlength, Nat.add_sub_cancel, ← hunread, List.take_append_of_le_length (by omega)]
  refine ⟨_, request, ⟨hreply, by omega⟩, ?_⟩
  rw [htake, forall_mem_take_iff hearly (by simp [Message.isPassedOver, hk, hx])]
  omega

/-- A reply given while messages were heard answers one of them. -/
theorem Reaches.request {sent : Message → Prop} (h : r.Reaches sent l l') {k : Nat} {x : Reply}
    (hk : (r.replies l.device).length ≤ k) (hx : (r.replies l'.device)[k]? = some x) : sent x.request := by
  obtain ⟨news, hn, hsent⟩ := h.heard
  have hrequest : (r.heard l')[k]? = some x.request := by
    rw [Respondent.heard, ← r.answers_once, List.getElem?_map, hx]
    rfl
  rw [length_replies] at hk
  rw [hn, List.getElem?_append_right hk] at hrequest
  exact hsent _ (List.mem_of_getElem? hrequest)

theorem Reaches.length_replies_le {sent : Message → Prop} (h : r.Reaches sent l l') :
    (r.replies l.device).length ≤ (r.replies l'.device).length := by
  obtain ⟨news, hn, -⟩ := h.heard
  rw [length_replies, length_replies, hn, List.length_append]
  exact Nat.le_add_right ..

/-- The answer that a call returns was given during the call if and only if all answers given before the call that are
still unread when the call has its channel, on that channel, are passed over. Then it answers a message of the call. -/
theorem answered_in_call_iff {calls : List Call} {command : Command} {payload data : Bytes}
    (h : (Link.transact r.device config command payload (r.after config calls)).1 = .ok data) :
    let l := r.after config calls
    let l' := (Link.transact r.device config command payload l).2
    ∃ channel l₁ k request,
      Link.ensureChannel r.device config l = (.ok channel, l₁) ∧
      r.ReadLast l' k ⟨request, ⟨channel, command, data⟩⟩ ∧
      ((r.replies l.device).length ≤ k → request.command = .init ∨ request = ⟨channel, command, payload⟩) ∧
      ((r.replies l.device).length ≤ k ↔
        ∀ a ∈ r.unreadOf (r.replies l.device).length l₁, a.channel = channel → a.isPassedOver = true) := by
  intro l l'
  obtain ⟨a, l₁, he, hc, hsame⟩ := Link.transactWith_channel h
  have hbefore := reaches_ensureChannel (r := r) config l
  rw [he] at hbefore
  obtain ⟨ms, hs, hin⟩ := hbefore.inStep (inStep_after config calls)
  have hrun : Link.transactWith r.device config command payload (config.maxAttempts - 1) l₁ = (.ok data, l') := by
    rw [← hsame]
    exact Prod.ext h rfl
  obtain ⟨k, request, hread, hiff⟩ :=
    (finds_of_transactWith _ hc hs hrun).reply hs hin _ hbefore.length_replies_le
  refine ⟨a.channel, l₁, k, request, he, hread, fun hk => ?_, hiff⟩
  have hchannel : a.channel = request.channel := r.answers_on_channel _ _ (List.mem_of_getElem? hread.1)
  rcases (reaches_transactWith config command payload _ l).request hk hread.1 with hi | ⟨hcommand, hpayload⟩
  · exact .inl hi
  · right
    obtain ⟨_, _, _⟩ := request
    simp only at hchannel hcommand hpayload
    rw [hchannel, hcommand, hpayload]

/-- The answer of a device that answers at once was given during the call. -/
theorem answered_in_call_iff_prompt :
    let l := prompt.after zeroNonces [.handshake]
    let l' := (Link.transact prompt.device zeroNonces .ping [0xaa] l).2
    (Link.transact prompt.device zeroNonces .ping [0xaa] l).1 = .ok [0xaa] ∧
      ∃ k request, prompt.ReadLast l' k ⟨request, ⟨1, .ping, [0xaa]⟩⟩ ∧ (prompt.replies l.device).length ≤ k := by
  have hchannel : (Link.ensureChannel prompt.device zeroNonces (prompt.after zeroNonces [.handshake])).1 = .ok 1 := rfl
  have hunread : prompt.unreadOf (prompt.replies (prompt.after zeroNonces [.handshake]).device).length
      (Link.ensureChannel prompt.device zeroNonces (prompt.after zeroNonces [.handshake])).2 = [] := rfl
  have h : (Link.transact prompt.device zeroNonces .ping [0xaa] (prompt.after zeroNonces [.handshake])).1 =
      .ok [0xaa] := rfl
  obtain ⟨channel, l₁, k, request, he, hread, -, hiff⟩ := answered_in_call_iff h
  rw [he] at hchannel hunread
  obtain rfl := Except.ok.inj hchannel
  refine ⟨h, k, request, hread, hiff.mpr fun a ha => ?_⟩
  rw [hunread] at ha
  cases ha

/-- What one would like of a call: the data that it returns are those of an answer given during the call. -/
def Correlated (r : Respondent δ) (config : Config) (calls : List Call) (command : Command) (payload : Bytes) : Prop :=
  let l := r.after config calls
  ∀ data, (Link.transact r.device config command payload l).1 = .ok data →
    ∃ x ∈ (r.replies (Link.transact r.device config command payload l).2.device).drop (r.replies l.device).length,
      x.answer.data = data

/-- The first message is answered twice because its first answer is late. The second answer is then taken for that to
the next message. -/
theorem not_correlated_late :
    ¬ (echoing fun k => k = 1).Correlated zeroNonces [.handshake, .transact .ping [0xaa]] .ping [0xbb] := by
  intro h
  obtain ⟨x, hx, hd⟩ := h [0xaa] rfl
  change x ∈ [(⟨⟨1, .ping, [0xbb]⟩, ⟨1, .ping, [0xbb]⟩⟩ : Reply)] at hx
  obtain rfl := List.mem_singleton.mp hx
  exact absurd hd (by decide)

end SecurityKey.Hid.Respondent
