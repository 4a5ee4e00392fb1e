import Mathlib.Data.List.Chain
import SecurityKey.Proofs.Exchange.Refinement

/-!
# What goes over the wire in an exchange

- `Carries`: what a chain looks like that carries a command; the chain of every command does (`carries_chain`);
- `noting`: a card that notes down every APDU with its answer, whatever card it is;
- `Linked`, `Sends` and `Fetched` list what may be noted down for a chain, for a command sent as a whole and for an
  answer in parts, each with its result;
- `Transcript.Keeps` says what is in the notes of an exchange (`transmit_keeps`).
-/

namespace SecurityKey

/-! ## Chains -/

namespace Apdu.Command

/-- A chain that carries a command in links of a given size: all links but the last one are full. -/
structure Carries (c : Command) (size : Nat) (chain : List Command) : Prop where
  ne_nil : chain ≠ []
  data : chain.flatMap (·.data) = c.data
  full : ∀ l ∈ chain.dropLast, l.data.length = linkSize size ∧
    l = { c with cla := c.cla ||| chainingBit, data := l.data, ne := 0, ne_le := Nat.zero_le _ }
  last : ∀ l ∈ chain.getLast?, l.data.length ≤ linkSize size ∧
    l = { c with data := l.data, ne := min c.ne 256, ne_le := Nat.le_trans (Nat.min_le_right ..) (by decide) }

variable {c : Command} {size : Nat} {chain : List Command}

/-- One link alone. -/
theorem carries_singleton {data : Bytes} (hdata : data.length ≤ linkSize size) :
    Carries (c.withData data) size [c.toShort.withData data] where
  ne_nil := List.cons_ne_nil _ _
  data := List.append_nil _
  full _ h := nomatch h
  last l hl := by
    obtain rfl := Option.some.inj hl
    exact ⟨hdata, rfl⟩

/-- One full link in front of a chain. -/
theorem Carries.cons {rest data : Bytes} (h : Carries (c.withData rest) size chain)
    (hdata : data.length = linkSize size) : Carries (c.withData (data ++ rest)) size
      ({ c with cla := c.cla ||| chainingBit, data, ne := 0, ne_le := by decide } :: chain) where
  ne_nil := List.cons_ne_nil _ _
  data := by
    rw [List.flatMap_cons, h.data]
    rfl
  full l hl := by
    rw [List.dropLast_cons_of_ne_nil h.ne_nil, List.mem_cons] at hl
    rcases hl with rfl | hl
    · exact ⟨hdata, rfl⟩
    · exact h.full l hl
  last l hl := by
    rw [List.getLast?_cons_of_ne_nil h.ne_nil] at hl
    exact h.last l hl

/-- Pieces that are full but for the last one make such a chain. -/
theorem carries_links {pieces : List Bytes} (hne : pieces ≠ [])
    (hfull : ∀ b ∈ pieces.dropLast, b.length = linkSize size) (hle : ∀ b ∈ pieces, b.length ≤ linkSize size) :
    Carries (c.withData pieces.flatten) size (c.links pieces) := by
  induction pieces with
  | nil => exact absurd rfl hne
  | cons data rest ih =>
    cases rest with
    | nil =>
      rw [List.flatten_cons, List.flatten_nil, List.append_nil]
      exact carries_singleton (hle data (List.mem_singleton_self _))
    | cons next rest =>
      refine (ih (List.cons_ne_nil _ _) ?_ fun b hb => hle b (List.mem_cons_of_mem _ hb)).cons
        (hfull data (List.mem_cons_self ..))
      exact fun b hb => hfull b (List.mem_cons_of_mem _ hb)

/-- The chain of a command carries it, whatever the size asked for. -/
theorem carries_chain (c : Command) (size : Nat) : Carries c size (c.chain size) := by
  have hsize : 0 < linkSize size := Nat.lt_of_lt_of_le Nat.one_pos (Nat.le_max_left ..)
  unfold chain
  split
  · rename_i hshort
    exact carries_singleton (c := c) hshort
  · rename_i hlong
    have hdata : c.data ≠ [] := by
      intro hnil
      rw [hnil] at hlong
      exact hlong (Nat.zero_le _)
    have hne : chunks (linkSize size) c.data ≠ [] := by
      rw [chunks_of_ne_nil hsize hdata]
      exact List.cons_ne_nil _ _
    have h := carries_links (c := c) hne (fun b hb => length_of_mem_dropLast_chunks hsize hb)
      fun b hb => (length_of_mem_chunks hsize hb).2
    rwa [flatten_chunks hsize] at h

/-- Every link fits the short form. -/
theorem Carries.fits (h : Carries c size chain) {l : Command} (hl : l ∈ chain) : l.fits .short = true := by
  have hsize : linkSize size ≤ 255 := by
    unfold linkSize
    omega
  rw [← List.dropLast_append_getLast h.ne_nil, List.mem_append, List.mem_singleton] at hl
  rcases hl with hl | rfl
  · obtain ⟨hlength, heq⟩ := h.full l hl
    rw [heq]
    simp [Command.fits, Form.maxData, Form.maxAnswer, hlength, hsize]
  · obtain ⟨hlength, heq⟩ := h.last _ (List.getLast?_eq_some_getLast h.ne_nil)
    rw [heq]
    exact fits_short_toShort (c := c.withData _) (Nat.le_trans hlength hsize)

end Apdu.Command

namespace Exchange

open Apdu (Command Response)

variable {σ : Type}

/-! ## Notes -/

/-- An APDU, whether the card took the extended form when it was sent, and what came back. -/
structure Note where
  apdu : Command
  extended : Bool
  answer : Except Error Response

/-- A card and the notes of what was sent to it, in order. -/
structure Noted (σ : Type) where
  card : σ
  notes : List Note

/-- A card that notes down every APDU with its answer. -/
def noting (card : Card σ) : Card (Noted σ) where
  connect := Action.zoom Noted.card (fun s r => { r with card := s }) card.connect
  transceive c r :=
    let (answer, s) := card.transceive c r.card
    (answer, ⟨s, r.notes ++ [⟨c, card.supportsExtended r.card, answer.mapError Error.ofLink⟩]⟩)
  release r := { r with card := card.release r.card }
  isConnected r := card.isConnected r.card
  supportsExtended r := card.supportsExtended r.card

/-- An action adds notes, and they and its result are as told. -/
def Tells {α : Type} (a : Action (Noted σ) Error α) (s : Noted σ) (Q : List Note → Except Error α → Prop) : Prop :=
  ∃ notes, (a s).2.notes = s.notes ++ notes ∧ Q notes (a s).1

section Tells

variable {α β : Type} {a : Action (Noted σ) Error α} {s : Noted σ} {Q T : List Note → Except Error α → Prop}

theorem Tells.mono (h : Tells a s Q) (hT : ∀ notes r, Q notes r → T notes r) : Tells a s T := by
  obtain ⟨notes, hnotes, hQ⟩ := h
  exact ⟨notes, hnotes, hT notes _ hQ⟩

/-- An action that sends nothing. -/
theorem Tells.quiet {r : Except Error α} (hrun : a s = (r, s)) (h : Q [] r) : Tells a s Q := by
  refine ⟨[], ?_, ?_⟩
  · rw [hrun, List.append_nil]
  · rwa [hrun]

/-- One action after another. -/
theorem Tells.bind {f : α → Action (Noted σ) Error β} {T : List Note → Except Error β → Prop} (ha : Tells a s Q)
    (herror : ∀ notes e, Q notes (.error e) → T notes (.error e))
    (hok : ∀ t notes x, Q notes (.ok x) → Tells (f x) t fun more r => T (notes ++ more) r) :
    Tells (a >>= f) s T := by
  obtain ⟨notes, hnotes, hQ⟩ := ha
  unfold Tells
  rw [Action.run_bind]
  rcases h : a s with ⟨e | x, t⟩
  · rw [h] at hnotes hQ
    exact ⟨notes, hnotes, herror notes e hQ⟩
  · rw [h] at hnotes hQ
    obtain ⟨more, hmore, hT⟩ := hok t notes x hQ
    refine ⟨notes ++ more, ?_, hT⟩
    rw [hmore, hnotes, List.append_assoc]

end Tells

/-- One APDU. -/
theorem tells_send (card : Card σ) (c : Command) (s : Noted σ) :
    Tells (send (noting card) c) s fun notes r => notes = [⟨c, card.supportsExtended s.card, r⟩] :=
  ⟨_, rfl, rfl⟩

/-! ## What may be noted down -/

/-- What may be noted down for the links of a chain, from one of them on. Only the last answer may refuse. -/
inductive Linked (total : Nat) : Nat → List Command → List Note → Except Error Response → Prop
  | last {index : Nat} {c : Command} (extended : Bool) (answer : Except Error Response) :
      Linked total index [c] [⟨c, extended, answer⟩] answer
  | next {index : Nat} {c d : Command} {rest : List Command} {extended : Bool} {r : Response} {notes : List Note}
      {result : Except Error Response} (h : r.sw = .success)
      (hrest : Linked total (index + 1) (d :: rest) notes result) :
      Linked total index (c :: d :: rest) (⟨c, extended, .ok r⟩ :: notes) result
  | broken {index : Nat} {c d : Command} {rest : List Command} {extended : Bool} {r : Response}
      (h : r.sw ≠ .success) : Linked total index (c :: d :: rest) [⟨c, extended, .ok r⟩]
        (.error (.ofLink (.chainingFailed index total r.sw.toUInt16)))
  | lost {index : Nat} {c d : Command} {rest : List Command} {extended : Bool} {e : Error} :
      Linked total index (c :: d :: rest) [⟨c, extended, .error e⟩] (.error e)

/-- What may be noted down for a command sent as a whole. -/
inductive Sends (c : Command) (size : Nat) : List Note → Except Error Response → Prop
  | whole {extended : Bool} {answer : Except Error Response} (h : c.fits .short = true ∨ extended = true) :
      Sends c size [⟨c, extended, answer⟩] answer
  | chained {notes : List Note} {result : Except Error Response}
      (h : Linked (c.chain size).length 0 (c.chain size) notes result) : Sends c size notes result
  /-- The length is refused, and a chain follows. -/
  | refused {r : Response} {notes : List Note} {result : Except Error Response} (hr : r.sw = .wrongLength)
      (h : Linked (c.chain size).length 0 (c.chain size) notes result) :
      Sends c size (⟨c, true, .ok r⟩ :: notes) result

/-- What may be noted down to complete an answer, where so many requests are allowed. -/
inductive Fetched : Nat → Response → List Note → Except Error Response → Prop
  | complete {parts : Nat} {first : Response} (h : first.sw.remaining? = none) : Fetched parts first [] (.ok first)
  | exhausted {first : Response} {available : UInt8} (h : first.sw.remaining? = some available) :
      Fetched 0 first [] (.error (.protocol "too many GET RESPONSE continuations"))
  | lost {parts : Nat} {first : Response} {available : UInt8} {extended : Bool} {e : Error}
      (h : first.sw.remaining? = some available) :
      Fetched (parts + 1) first [⟨.getResponse available, extended, .error e⟩] (.error e)
  | more {parts : Nat} {first r : Response} {available : UInt8} {extended : Bool} {notes : List Note}
      {result : Except Error Response} (h : first.sw.remaining? = some available)
      (hrest : Fetched parts ⟨first.data ++ r.data, r.sw⟩ notes result) :
      Fetched (parts + 1) first (⟨.getResponse available, extended, .ok r⟩ :: notes) result

section Courses

variable (card : Card σ)

theorem tells_sendLinks (total : Nat) {links : List Command} (hne : links ≠ []) (index : Nat) (s : Noted σ) :
    Tells (sendLinks (noting card) total index links) s (Linked total index links) := by
  induction links generalizing index s with
  | nil => exact absurd rfl hne
  | cons c rest ih =>
    cases rest with
    | nil =>
      refine (tells_send card c s).mono ?_
      rintro notes r rfl
      exact .last _ r
    | cons d rest =>
      refine (tells_send card c s).bind ?_ ?_
      · rintro notes e rfl
        exact .lost
      · rintro t notes r rfl
        have hsuccess : r.isSuccess = true ↔ r.sw = .success := decide_eq_true_iff
        split
        · rename_i hr
          exact (ih (List.cons_ne_nil _ _) (index + 1) t).mono fun _ _ h => .next (hsuccess.mp hr) h
        · rename_i hr
          exact .quiet rfl (.broken fun h => hr (hsuccess.mpr h))

theorem tells_sendWhole (c : Command) (size : Nat) (s : Noted σ) :
    Tells (sendWhole (noting card) c size) s (Sends c size) := by
  have hchain : ∀ t, Tells (sendChain (noting card) c size) t
      (Linked (c.chain size).length 0 (c.chain size)) := fun t =>
    tells_sendLinks card _ (Command.carries_chain c size).ne_nil 0 t
  unfold sendWhole
  split
  · rename_i hfits
    refine (tells_send card c s).mono ?_
    rintro notes r rfl
    exact .whole (.inl hfits)
  · show Tells (if (noting card).supportsExtended s then _ else _) s _
    split
    · rename_i hextended
      refine (tells_send card c s).bind ?_ ?_
      · rintro notes e rfl
        exact .whole (.inr hextended)
      · rintro t notes r rfl
        have htaken : card.supportsExtended s.card = true := hextended
        split
        · rename_i hr
          refine (hchain t).mono fun notes result h => ?_
          rw [htaken]
          exact .refused hr h
        · exact .quiet rfl (.whole (.inr htaken))
    · exact (hchain s).mono fun _ _ h => .chained h

theorem tells_fetch (parts : Nat) (first : Response) {available : UInt8}
    (h : first.sw.remaining? = some available) (s : Noted σ) :
    Tells (fetch (noting card) parts first.data available) s (Fetched parts first) := by
  induction parts generalizing first available s with
  | zero => exact .quiet rfl (.exhausted h)
  | succ parts ih =>
    refine (tells_send card _ s).bind ?_ ?_
    · rintro notes e rfl
      exact .lost h
    · rintro t notes r rfl
      cases hr : r.sw.remaining? with
      | none => exact .quiet rfl (.more h (.complete hr))
      | some next => exact (ih ⟨first.data ++ r.data, r.sw⟩ hr t).mono fun _ _ hrest => .more h hrest

theorem tells_complete (first : Response) (s : Noted σ) :
    Tells (complete (noting card) first) s (Fetched maxParts first) := by
  unfold complete
  split
  · rename_i h
    exact tells_fetch card maxParts first h s
  · rename_i h
    exact .quiet rfl (.complete h)

end Courses

/-! ## Links and requests -/

section Linked

variable {total index : Nat} {links : List Command} {notes : List Note} {result : Except Error Response}

/-- The links are sent in their order. -/
theorem Linked.isPrefix (h : Linked total index links notes result) : notes.map (·.apdu) <+: links := by
  induction h with
  | last => exact List.prefix_rfl
  | next _ _ ih => exact List.cons_prefix_cons.mpr ⟨rfl, ih⟩
  | broken => exact List.cons_prefix_cons.mpr ⟨rfl, List.nil_prefix⟩
  | lost => exact List.cons_prefix_cons.mpr ⟨rfl, List.nil_prefix⟩

/-- A refusal before the last link ends the chain. -/
theorem Linked.ends (h : Linked total index links notes result) {i : Nat} {n : Note} {r : Response}
    (hn : notes[i]? = some n) (hi : i + 1 < links.length) (hr : n.answer = .ok r) (hsw : r.sw ≠ .success) :
    notes.length = i + 1 ∧ result = .error (.ofLink (.chainingFailed (index + i) total r.sw.toUInt16)) := by
  induction h generalizing i with
  | last => simp at hi
  | @next index _ _ _ _ _ _ _ h _ ih =>
    cases i with
    | zero =>
      cases hn
      cases hr
      exact absurd h hsw
    | succ i =>
      obtain ⟨hlength, hresult⟩ := ih hn (Nat.lt_of_succ_lt_succ hi)
      refine ⟨by rw [List.length_cons, hlength], ?_⟩
      rw [hresult, Nat.add_assoc, Nat.add_comm 1 i]
  | broken =>
    cases i with
    | zero =>
      cases hn
      cases hr
      exact ⟨rfl, rfl⟩
    | succ i => cases hn
  | lost =>
    cases i with
    | zero =>
      cases hn
      cases hr
    | succ i => cases hn

/-- The result, where there is one, is the last answer. -/
theorem Linked.exists_last (h : Linked total index links notes result) :
    ∃ n, notes.getLast? = some n ∧ ∀ r, result = .ok r → n.answer = .ok r := by
  induction h with
  | last extended answer => exact ⟨_, rfl, fun _ h => h⟩
  | next _ hrest ih =>
    obtain ⟨n, hn, hanswer⟩ := ih
    refine ⟨n, ?_, hanswer⟩
    rw [List.getLast?_cons, hn]
    rfl
  | broken => exact ⟨_, rfl, fun _ h => nomatch h⟩
  | lost => exact ⟨_, rfl, fun _ h => nomatch h⟩

end Linked

/-- An APDU asks for exactly what the answer in front of it announces. -/
def Follows (m n : Note) : Prop :=
  ∃ r available, m.answer = .ok r ∧ r.sw = ⟨0x61, available⟩ ∧ n.apdu = .getResponse available ∧
    n.apdu.ne = if available = 0 then 256 else available.toNat

theorem eq_of_remaining? {sw : Apdu.StatusWord} {available : UInt8} (h : sw.remaining? = some available) :
    sw = ⟨0x61, available⟩ := by
  obtain ⟨sw1, sw2⟩ := sw
  unfold Apdu.StatusWord.remaining? at h
  split at h
  · rename_i hsw
    cases hsw
    cases h
    rfl
  · cases h

theorem ne_getResponse (available : UInt8) :
    (Command.getResponse available).ne = if available = 0 then 256 else available.toNat := by
  have h : available.toNat < 256 := available.toNat_lt
  show min (if available = 0 then 256 else available.toNat) 65536 = _
  split <;> omega

section Fetched

variable {parts : Nat} {first r : Response} {notes : List Note} {result : Except Error Response}

theorem Fetched.length_le (h : Fetched parts first notes result) : notes.length ≤ parts := by
  induction h with
  | complete => exact Nat.zero_le _
  | exhausted => exact Nat.zero_le _
  | lost => exact Nat.succ_le_succ (Nat.zero_le _)
  | more _ _ ih => exact Nat.succ_le_succ ih

theorem Fetched.fits (h : Fetched parts first notes result) : ∀ n ∈ notes, n.apdu.fits .short = true := by
  have hrequest : ∀ available, (Command.getResponse available).fits .short = true := by
    intro available
    have hne : (if available = 0 then 256 else available.toNat) ≤ 256 := by
      have := available.toNat_lt
      split <;> omega
    rw [Command.fits, ne_getResponse]
    exact Bool.and_eq_true_iff.mpr ⟨rfl, decide_eq_true hne⟩
  induction h with
  | complete => exact List.forall_mem_nil _
  | exhausted => exact List.forall_mem_nil _
  | lost => exact List.forall_mem_singleton.mpr (hrequest _)
  | more _ _ ih => exact List.forall_mem_cons.mpr ⟨hrequest _, ih⟩

/-- Behind an answer that announces as much as the first part, each request asks for what is announced. -/
theorem Fetched.follows (h : Fetched parts first notes result) {last : Note} (hlast : last.answer = .ok r)
    (hsw : r.sw = first.sw) : List.IsChain Follows (last :: notes) := by
  induction h generalizing last r with
  | complete => exact .singleton _
  | exhausted => exact .singleton _
  | lost h =>
    refine .cons_cons ⟨r, _, hlast, hsw.trans (eq_of_remaining? h), rfl, ne_getResponse _⟩ (.singleton _)
  | more h _ ih =>
    exact .cons_cons ⟨r, _, hlast, hsw.trans (eq_of_remaining? h), rfl, ne_getResponse _⟩ (ih rfl rfl)

/-- A whole answer announces no more, and its data are those of the first part and of the answers to the requests. -/
theorem Fetched.whole (h : Fetched parts first notes (.ok r)) : r.sw.remaining? = none ∧
    ∃ answers : List Response, notes.map (·.answer) = answers.map .ok ∧
      r.data = first.data ++ answers.flatMap (·.data) := by
  generalize hresult : (Except.ok r : Except Error Response) = result at h
  induction h with
  | complete h =>
    cases hresult
    exact ⟨h, [], rfl, (List.append_nil _).symm⟩
  | exhausted => cases hresult
  | lost => cases hresult
  | @more _ _ part _ _ _ _ _ _ ih =>
    obtain ⟨hfinal, answers, hanswers, hdata⟩ := ih hresult
    refine ⟨hfinal, part :: answers, congrArg _ hanswers, ?_⟩
    rw [hdata, List.flatMap_cons, List.append_assoc]

end Fetched

/-! ## Transcripts -/

/-- The notes of a command sent as a whole: the command as one APDU, where it was sent so, and the links of a chain,
where one was sent. -/
structure Sending where
  command : Command
  direct : Option Note
  links : List Note

namespace Sending

def notes (a : Sending) : List Note := a.direct.toList ++ a.links

/-- What is in the notes of a command sent as a whole. -/
structure Keeps (size : Nat) (a : Sending) (result : Except Error Response) : Prop where
  short : ∀ n ∈ a.notes, n.extended = false → n.apdu.fits .short = true
  direct : ∀ n ∈ a.direct, n.apdu = a.command
  /-- A chain stands behind the whole command only where the length of that was refused. -/
  fallback : ∀ n ∈ a.direct, a.links ≠ [] → ∃ r, n.answer = .ok r ∧ r.sw = .wrongLength
  links : a.links.map (·.apdu) <+: a.command.chain size
  broken : ∀ i n r, a.links[i]? = some n → i + 1 < (a.command.chain size).length → n.answer = .ok r →
    r.sw ≠ .success → a.links.length = i + 1 ∧
      result = .error (.ofLink (.chainingFailed i (a.command.chain size).length r.sw.toUInt16))
  answered : ∃ n, a.notes.getLast? = some n ∧ ∀ r, result = .ok r → n.answer = .ok r

end Sending

theorem Sends.exists_sending {c : Command} {size : Nat} {notes : List Note} {result : Except Error Response}
    (h : Sends c size notes result) : ∃ a : Sending, a.command = c ∧ a.notes = notes ∧ a.Keeps size result := by
  have hshort : ∀ {links r}, Linked (c.chain size).length 0 (c.chain size) links r →
      ∀ n ∈ links, n.extended = false → n.apdu.fits .short = true := fun h n hn _ =>
    (Command.carries_chain c size).fits (h.isPrefix.subset (List.mem_map_of_mem hn))
  have hbroken : ∀ {links : List Note} {r'}, Linked (c.chain size).length 0 (c.chain size) links r' →
      ∀ i n r, links[i]? = some n → i + 1 < (c.chain size).length → n.answer = .ok r → r.sw ≠ .success →
        links.length = i + 1 ∧ r' = .error (.ofLink (.chainingFailed i (c.chain size).length r.sw.toUInt16)) := by
    intro links r' h i n r hn hi hr hsw
    have hends := h.ends hn hi hr hsw
    rwa [Nat.zero_add] at hends
  cases h with
  | @whole extended _ h =>
    refine ⟨⟨c, some ⟨c, extended, result⟩, []⟩, rfl, rfl, ?_, ?_, ?_, List.nil_prefix, ?_, ?_⟩
    · exact List.forall_mem_singleton.mpr fun hextended => h.resolve_right (Bool.eq_false_iff.mp hextended)
    · intro n hn
      cases hn
      rfl
    · exact fun _ _ hne => absurd rfl hne
    · exact fun _ _ _ hn => nomatch hn
    · exact ⟨_, rfl, fun _ h => h⟩
  | chained h =>
    refine ⟨⟨c, none, notes⟩, rfl, rfl, hshort h, ?_, ?_, h.isPrefix, hbroken h, h.exists_last⟩
    · exact fun _ hn => nomatch hn
    · exact fun _ hn => nomatch hn
  | @refused r links _ hr h =>
    refine ⟨⟨c, some ⟨c, true, .ok r⟩, links⟩, rfl, rfl, ?_, ?_, ?_, h.isPrefix, hbroken h, ?_⟩
    · refine List.forall_mem_cons.mpr ⟨?_, hshort h⟩
      exact fun hextended => nomatch hextended
    · intro n hn
      cases hn
      rfl
    · intro n hn _
      cases hn
      exact ⟨r, rfl, hr⟩
    · obtain ⟨n, hn, hanswer⟩ := h.exists_last
      refine ⟨n, ?_, hanswer⟩
      show (_ :: links).getLast? = some n
      rw [List.getLast?_cons, hn]
      rfl

/-- The notes of an exchange: those of the command, which may be sent once more, and those of the requests for more of
its answer. -/
structure Transcript where
  sendings : List Sending
  requests : List Note

namespace Transcript

/-- The notes of the command. -/
def sent (t : Transcript) : List Note := t.sendings.flatMap Sending.notes

def notes (t : Transcript) : List Note := t.sent ++ t.requests

/-- The command is sent, and it is sent once more where the last answer to it names a length to ask for. -/
def Sent (c : Command) (sendings : List Sending) : Prop :=
  (∃ a, sendings = [a] ∧ a.command = c) ∨
    ∃ a b n r exact, sendings = [a, b] ∧ a.command = c ∧ a.notes.getLast? = some n ∧ n.answer = .ok r ∧
      r.sw.exactLength? = some exact ∧ b.command = c.withNe exact.toNat

/-- What is in the notes of an exchange of a command. -/
structure Keeps (c : Command) (size : Nat) (t : Transcript) (result : Except Error Response) : Prop where
  /-- Nothing but short APDUs is sent to a card that does not take the extended form. -/
  short : ∀ n ∈ t.notes, n.extended = false → n.apdu.fits .short = true
  commands : Sent c t.sendings
  direct : ∀ a ∈ t.sendings, ∀ n ∈ a.direct, n.apdu = a.command
  /-- A chain stands behind the whole command only where the length of that was refused. -/
  fallback : ∀ a ∈ t.sendings, ∀ n ∈ a.direct, a.links ≠ [] → ∃ r, n.answer = .ok r ∧ r.sw = .wrongLength
  /-- The links are the first ones of a chain that carries the command. -/
  links : ∀ a ∈ t.sendings, a.command.Carries size (a.command.chain size) ∧
    a.links.map (·.apdu) <+: a.command.chain size
  /-- A refusal before the last link is the last that is noted down, and the result. -/
  broken : ∀ a ∈ t.sendings, ∀ i n r, a.links[i]? = some n → i + 1 < (a.command.chain size).length →
    n.answer = .ok r → r.sw ≠ .success → a.links.length = i + 1 ∧ (∃ before, t.notes = before ++ a.links) ∧
      result = .error (.ofLink (.chainingFailed i (a.command.chain size).length r.sw.toUInt16))
  /-- Requests ask for what is announced. A result announces no more, and its data are those of the last answer to
  the command and of the answers to the requests. -/
  answered : ∃ last, t.sent.getLast? = some last ∧ List.IsChain Follows (last :: t.requests) ∧
    ∀ r, result = .ok r → r.sw.sw1 ≠ 0x61 ∧ ∃ answers : List Response,
      (last :: t.requests).map (·.answer) = answers.map .ok ∧ r.data = answers.flatMap (·.data)
  few : t.requests.length ≤ 64

/-- What may be noted down behind the answer to a command, or behind its failure. -/
inductive Completed : Except Error Response → List Note → Except Error Response → Prop
  | failed (e : Error) : Completed (.error e) [] (.error e)
  | fetched {r : Response} {requests : List Note} {result : Except Error Response}
      (h : Fetched maxParts r requests result) : Completed (.ok r) requests result

section Completed

variable {answer result : Except Error Response} {requests : List Note}

theorem Completed.length_le (h : Completed answer requests result) : requests.length ≤ 64 := by
  cases h with
  | failed => exact Nat.zero_le _
  | fetched h => exact h.length_le

theorem Completed.fits (h : Completed answer requests result) : ∀ n ∈ requests, n.apdu.fits .short = true := by
  cases h with
  | failed => exact List.forall_mem_nil _
  | fetched h => exact h.fits

theorem Completed.eq_of_error {e : Error} (h : Completed answer requests result) (he : answer = .error e) :
    requests = [] ∧ result = .error e := by
  cases h with
  | failed =>
    cases he
    exact ⟨rfl, rfl⟩
  | fetched => cases he

theorem Completed.answered (h : Completed answer requests result) {last : Note}
    (hlast : ∀ r, answer = .ok r → last.answer = .ok r) : List.IsChain Follows (last :: requests) ∧
    ∀ r, result = .ok r → r.sw.sw1 ≠ 0x61 ∧ ∃ answers : List Response,
      (last :: requests).map (·.answer) = answers.map .ok ∧ r.data = answers.flatMap (·.data) := by
  cases h with
  | failed => exact ⟨.singleton _, fun _ h => nomatch h⟩
  | @fetched first _ _ h =>
    have hfirst := hlast first rfl
    refine ⟨h.follows hfirst rfl, ?_⟩
    rintro r rfl
    obtain ⟨hfinal, answers, hanswers, hdata⟩ := h.whole
    refine ⟨fun hsw => ?_, first :: answers, ?_, hdata⟩
    · rw [Apdu.StatusWord.remaining?, if_pos hsw] at hfinal
      cases hfinal
    · rw [List.map_cons, List.map_cons, hfirst, hanswers]

end Completed

/-- A transcript is made of sendings that were answered, a last one, and what comes behind its answer. -/
theorem keeps_of_sendings {c : Command} {size : Nat} {earlier : List Sending} {a : Sending} {requests : List Note}
    {answer result : Except Error Response} (hearlier : ∀ b ∈ earlier, ∃ r, b.Keeps size (.ok r))
    (ha : a.Keeps size answer) (hsent : Sent c (earlier ++ [a])) (h : Completed answer requests result) :
    Keeps c size ⟨earlier ++ [a], requests⟩ result := by
  have hall : ∀ b ∈ earlier ++ [a], ∃ r, b.Keeps size r := by
    intro b hb
    rcases List.mem_append.mp hb with hb | hb
    · obtain ⟨r, hr⟩ := hearlier b hb
      exact ⟨_, hr⟩
    · obtain rfl := List.mem_singleton.mp hb
      exact ⟨_, ha⟩
  have hnotes : (earlier ++ [a]).flatMap Sending.notes = earlier.flatMap Sending.notes ++ a.notes := by
    rw [List.flatMap_append, List.flatMap_singleton]
  refine ⟨?_, hsent, ?_, ?_, ?_, ?_, ?_, h.length_le⟩
  · intro n hn hextended
    rcases List.mem_append.mp hn with hn | hn
    · obtain ⟨b, hb, hn⟩ := List.mem_flatMap.mp hn
      obtain ⟨r, hr⟩ := hall b hb
      exact hr.short n hn hextended
    · exact h.fits n hn
  · intro b hb
    obtain ⟨r, hr⟩ := hall b hb
    exact hr.direct
  · intro b hb
    obtain ⟨r, hr⟩ := hall b hb
    exact hr.fallback
  · intro b hb
    obtain ⟨r, hr⟩ := hall b hb
    exact ⟨Command.carries_chain b.command size, hr.links⟩
  · intro b hb i n r hn hi hr hsw
    rcases List.mem_append.mp hb with hb | hb
    · -- an earlier sending was answered, so none of its links was refused
      obtain ⟨r', hkeeps⟩ := hearlier b hb
      cases (hkeeps.broken i n r hn hi hr hsw).2
    · obtain rfl := List.mem_singleton.mp hb
      obtain ⟨hlength, hanswer⟩ := ha.broken i n r hn hi hr hsw
      obtain ⟨rfl, hresult⟩ := h.eq_of_error hanswer
      refine ⟨hlength, ⟨earlier.flatMap Sending.notes ++ b.direct.toList, ?_⟩, hresult⟩
      rw [notes, sent, hnotes, Sending.notes, List.append_nil, List.append_assoc]
  · obtain ⟨last, hlast, hanswer⟩ := ha.answered
    refine ⟨last, ?_, h.answered hanswer⟩
    rw [sent, hnotes, List.getLast?_append, hlast]
    rfl

/-- A transcript with one sending. -/
theorem keeps_of_sending {c : Command} {size : Nat} {a : Sending} {requests : List Note}
    {answer result : Except Error Response} (ha : a.Keeps size answer) (hcommand : a.command = c)
    (h : Completed answer requests result) : Keeps c size ⟨[a], requests⟩ result :=
  keeps_of_sendings (List.forall_mem_nil _) ha (.inl ⟨a, rfl, hcommand⟩) h

end Transcript

/-- **The notes of an exchange.** Whatever a card answers and whatever it loses, a command of any length goes over the
wire like this: a card that does not take the extended form gets short APDUs only; where the command is chained, the
links are the first ones of a chain that carries it, and a refusal before the last link is the last thing that happens
and the result; a whole answer is the last answer to the command together with the answers to at most 64 requests,
each of them for exactly what was announced. -/
theorem transmit_keeps {σ : Type} (card : Card σ) (c : Command) (size : Nat) (s : Noted σ) :
    ∃ t : Transcript, (transmit (noting card) c size s).2.notes = s.notes ++ t.notes ∧
      t.Keeps c size (transmit (noting card) c size s).1 := by
  suffices h : Tells (transmit (noting card) c size) s fun notes result =>
      ∃ t : Transcript, t.notes = notes ∧ t.Keeps c size result by
    obtain ⟨_, hnotes, t, rfl, hkeeps⟩ := h
    exact ⟨t, hnotes, hkeeps⟩
  refine (tells_sendWhole card c size s).bind ?_ ?_
  · intro notes e h
    obtain ⟨a, hcommand, rfl, ha⟩ := h.exists_sending
    exact ⟨⟨[a], []⟩, by simp [Transcript.notes, Transcript.sent],
      Transcript.keeps_of_sending ha hcommand (.failed e)⟩
  intro s' notes r h
  obtain ⟨a, hcommand, rfl, ha⟩ := h.exists_sending
  cases hexact : r.sw.exactLength? with
  | none =>
    refine (tells_complete card r s').mono fun requests result hrequests => ?_
    exact ⟨⟨[a], requests⟩, by simp [Transcript.notes, Transcript.sent],
      Transcript.keeps_of_sending ha hcommand (.fetched hrequests)⟩
  | some exact =>
    obtain ⟨n, hn, hanswer⟩ := ha.answered
    have hearlier : ∀ b ∈ [a], ∃ r, b.Keeps size (.ok r) := List.forall_mem_singleton.mpr ⟨r, ha⟩
    have htwo : ∀ {b : Sending}, b.command = c.withNe exact.toNat → Transcript.Sent c ([a] ++ [b]) := fun hb =>
      .inr ⟨a, _, n, r, exact, rfl, hcommand, hn, hanswer r rfl, hexact, hb⟩
    refine (tells_sendWhole card (c.withNe exact.toNat) size s').bind ?_ ?_
    · intro more e h
      obtain ⟨b, hb, rfl, hkeeps⟩ := h.exists_sending
      exact ⟨⟨[a] ++ [b], []⟩, by simp [Transcript.notes, Transcript.sent],
        Transcript.keeps_of_sendings hearlier hkeeps (htwo hb) (.failed e)⟩
    · intro s'' more r' h
      obtain ⟨b, hb, rfl, hkeeps⟩ := h.exists_sending
      refine (tells_complete card r' s'').mono fun requests result hrequests => ?_
      exact ⟨⟨[a] ++ [b], requests⟩, by simp [Transcript.notes, Transcript.sent],
        Transcript.keeps_of_sendings hearlier hkeeps (htwo hb) (.fetched hrequests)⟩

end Exchange

end SecurityKey
