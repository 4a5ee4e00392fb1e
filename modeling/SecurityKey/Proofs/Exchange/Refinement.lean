import SecurityKey.Exchange
import SecurityKey.Proofs.Action

/-!
# One execution behind every exchange

An application on a card executes whole commands and gives whole replies. Between it and the host stands a front end:
it puts chains together, hands replies out in parts, and may refuse a command before it is executed.

- `LogicalCard`: what executes whole commands;
- `FrontEnd` and `Answers`: what stands in front of it, and how it may answer an APDU;
- `Fronts`: a card that never answers otherwise;
- through every such card an exchange is one execution, and its answer is the whole reply (`transmit_refines`).
-/

namespace SecurityKey

namespace Apdu.Command

/-- Commands that are the same but for the length of answer they ask for. -/
def Alike (c d : Command) : Prop := c.withNe 0 = d.withNe 0

/-- Whether more links of a chain follow. -/
def IsLink (c : Command) : Prop := c.cla &&& chainingBit ≠ 0

/-- Whether a command asks for more of an answer. -/
def IsGetResponse (c : Command) : Prop := Alike c (header 0x00 0xc0 0x00 0x00)

instance : DecidablePred IsLink := fun c => inferInstanceAs (Decidable (c.cla &&& chainingBit ≠ 0))

instance : DecidablePred IsGetResponse := fun c =>
  inferInstanceAs (Decidable (c.withNe 0 = (header 0x00 0xc0 0x00 0x00).withNe 0))

theorem Alike.trans {c d e : Command} (h : Alike c d) (h' : Alike d e) : Alike c e := Eq.trans h h'

theorem alike_withNe (c : Command) (n : Nat) : Alike (c.withNe n) c := rfl

theorem isGetResponse_getResponse (available : UInt8) : (getResponse available).IsGetResponse := rfl

theorem or_chainingBit (cla : UInt8) : (cla ||| chainingBit) &&& chainingBit ≠ 0 := by
  intro h
  -- the chaining bit is bit four
  have hbit := congrArg (fun b : UInt8 => b.toBitVec.getLsbD 4) h
  simp [chainingBit] at hbit

theorem links_ne_nil (c : Command) {pieces : List Bytes} (h : pieces ≠ []) : c.links pieces ≠ [] := by
  cases pieces with
  | nil => exact absurd rfl h
  | cons data rest => cases rest <;> exact List.cons_ne_nil _ _

theorem chain_ne_nil (c : Command) (size : Nat) : c.chain size ≠ [] := by
  have hsize : 0 < linkSize size := Nat.lt_of_lt_of_le Nat.one_pos (Nat.le_max_left ..)
  unfold chain
  split
  · exact List.cons_ne_nil _ _
  · rename_i hlong
    have hdata : c.data ≠ [] := by
      intro hnil
      rw [hnil] at hlong
      exact hlong (Nat.zero_le _)
    refine links_ne_nil c ?_
    rw [chunks_of_ne_nil hsize hdata]
    exact List.cons_ne_nil _ _

theorem fits_short_toShort {c : Command} (h : c.data.length ≤ 255) : c.toShort.fits .short = true := by
  have hne : min c.ne 256 ≤ 256 := Nat.min_le_right ..
  simp [fits, toShort, Form.maxData, Form.maxAnswer, h, hne]

end Apdu.Command

namespace Exchange

open Apdu (Command Response StatusWord)
open Apdu.Command (Alike IsLink IsGetResponse)

variable {σ τ : Type}

/-! ## Logical cards -/

/-- Whether a status word ends an exchange: it announces no more of an answer and finds no fault with a length. -/
def IsFinal (sw : StatusWord) : Prop := sw.sw1 ≠ 0x61 ∧ sw.sw1 ≠ 0x6c ∧ sw ≠ .wrongLength

/-- A card that executes whole commands. What it replies does not depend on the length of answer asked for. -/
structure LogicalCard (σ : Type) where
  execute : Command → σ → Response × σ
  reply_withNe : ∀ c n s, (execute (c.withNe n) s).1 = (execute c s).1
  isFinal : ∀ c s, IsFinal (execute c s).1.sw

theorem LogicalCard.reply_alike (logical : LogicalCard σ) {c d : Command} (h : Alike c d) (s : σ) :
    (logical.execute c s).1 = (logical.execute d s).1 := by
  rw [← logical.reply_withNe c 0, ← logical.reply_withNe d 0, show c.withNe 0 = d.withNe 0 from h]

/-! ## Replies in parts -/

/-- A reply in parts: each but the last announces more. -/
inductive Parts : Response → List Response → Prop
  | last (r : Response) : Parts r [r]
  | more {data rest : Bytes} {sw : StatusWord} {parts : List Response} (available : UInt8)
      (h : Parts ⟨rest, sw⟩ parts) : Parts ⟨data ++ rest, sw⟩ (⟨data, ⟨0x61, available⟩⟩ :: parts)

/-- No part of a reply asks for another length. -/
theorem Parts.exactLength?_eq {reply r : Response} {rest : List Response} (h : Parts reply (r :: rest))
    (hf : IsFinal reply.sw) : r.sw.exactLength? = none ∧ r.sw ≠ .wrongLength := by
  cases h with
  | last =>
    refine ⟨?_, hf.2.2⟩
    unfold StatusWord.exactLength?
    exact if_neg fun h => hf.2.1 h.1
  | more available _ =>
    constructor
    · apply if_neg
      rintro ⟨h, -⟩
      cases h
    · intro h
      cases h

/-! ## Front ends -/

/-- The front end of a card. -/
structure FrontEnd (σ : Type) where
  logical : σ
  /-- The data of the links received so far. -/
  links : Bytes
  /-- The parts of the last reply that are not handed out yet. -/
  parts : List Response
  /-- Whether another length was asked for since the last execution. -/
  corrected : Bool
  /-- The commands that were executed, in order. -/
  executed : List Command

/-- A front end between two exchanges. -/
structure FrontEnd.AtRest (f : FrontEnd σ) : Prop where
  links : f.links = []
  parts : f.parts = []
  corrected : f.corrected = false

/-- The front end once the last links are gone and nothing of a reply is left. -/
def FrontEnd.drop (f : FrontEnd σ) : FrontEnd σ := { f with links := [], parts := [] }

/-- The front end after a command was executed and the first part of the reply was handed out. -/
def FrontEnd.execute (logical : LogicalCard σ) (f : FrontEnd σ) (c : Command) (rest : List Response) : FrontEnd σ :=
  ⟨(logical.execute c f.logical).2, [], rest, false, f.executed ++ [c]⟩

/-- What a front end may do with a command that does not ask for more of a reply. -/
inductive Handles (logical : LogicalCard σ) (f : FrontEnd σ) (c : Command) : Response → FrontEnd σ → Prop
  /-- A link is kept. -/
  | keep {r : Response} (link : c.IsLink) (ok : r.sw = .success) :
      Handles logical f c r { f with links := f.links ++ c.data, parts := [] }
  /-- A command in extended form is refused. -/
  | refuse {r : Response} (whole : ¬ c.IsLink) (extended : c.fits .short = false) (sw : r.sw = .wrongLength) :
      Handles logical f c r f.drop
  /-- Another length of answer is asked for, once. -/
  | correct {r : Response} (whole : ¬ c.IsLink) (first : f.corrected = false) (exact : UInt8) (ne : exact ≠ 0)
      (sw : r.sw = ⟨0x6c, exact⟩) : Handles logical f c r { f.drop with corrected := true }
  /-- The command is executed with the data of all links. -/
  | execute {r : Response} {rest : List Response} (whole : ¬ c.IsLink)
      (parts : Parts (logical.execute (c.withData (f.links ++ c.data)) f.logical).1 (r :: rest))
      (few : (r :: rest).length ≤ 65) : Handles logical f c r (f.execute logical (c.withData (f.links ++ c.data)) rest)

/-- How a front end may answer an APDU: it hands out the next part of a reply when it is asked for it. -/
inductive Answers (logical : LogicalCard σ) (f : FrontEnd σ) (c : Command) : Response → FrontEnd σ → Prop
  | fetch {r : Response} {rest : List Response} (asked : c.IsGetResponse) (left : f.parts = r :: rest) :
      Answers logical f c r { f with parts := rest }
  | handle {r : Response} {f' : FrontEnd σ} (new : ¬ (c.IsGetResponse ∧ f.parts ≠ []))
      (handles : Handles logical f c r f') : Answers logical f c r f'

/-- A card that answers every APDU as a front end of a logical card may. -/
structure Fronts (logical : LogicalCard σ) (card : Card τ) where
  /-- Which states of the card are which states of the front end. -/
  shows : τ → FrontEnd σ → Prop
  answers : ∀ c t f, shows t f →
    ∃ r t' f', card.transceive c t = (.ok r, t') ∧ Answers logical f c r f' ∧ shows t' f'

/-! ## Commands sent -/

/-- What becomes of a command that is sent as a whole: another length is asked for, or it is executed. -/
inductive Sent (logical : LogicalCard σ) (f : FrontEnd σ) (c : Command) : Response → FrontEnd σ → Prop
  | corrected {r : Response} (first : f.corrected = false) (exact : UInt8) (ne : exact ≠ 0)
      (sw : r.sw = ⟨0x6c, exact⟩) :
      Sent logical f c r { f with corrected := true }
  | executed {r : Response} {d : Command} {rest : List Response} (alike : Alike d c)
      (parts : Parts (logical.execute d f.logical).1 (r :: rest)) (few : (r :: rest).length ≤ 65) :
      Sent logical f c r (f.execute logical d rest)

section Sending

variable {logical : LogicalCard σ} {card : Card τ} (h : Fronts logical card) {f : FrontEnd σ} {t : τ}

include h in
/-- One APDU. -/
theorem run_send (c : Command) (hs : h.shows t f) :
    ∃ r t' f', send card c t = (.ok r, t') ∧ Answers logical f c r f' ∧ h.shows t' f' := by
  obtain ⟨r, t', f', ht, ha, hs⟩ := h.answers c t f hs
  refine ⟨r, t', f', ?_, ha, hs⟩
  rw [send, Action.run_adapt, ht]
  rfl

include h in
/-- One link is kept behind the others. -/
theorem run_send_link {c : Command} (hc : c.IsLink) (hp : f.parts = []) (hs : h.shows t f) :
    ∃ r t', send card c t = (.ok r, t') ∧ r.sw = .success ∧ h.shows t' { f with links := f.links ++ c.data } := by
  obtain ⟨r, t', f', ht, ha, hs⟩ := run_send h c hs
  cases ha with
  | fetch _ hl => rw [hp] at hl; cases hl
  | handle _ hh =>
    cases hh with
    | keep _ hok => exact ⟨r, t', ht, hok, by rwa [← hp] at hs⟩
    | refuse hw _ _ => exact absurd hc hw
    | correct hw _ _ _ _ => exact absurd hc hw
    | execute hw _ _ => exact absurd hc hw

include h in
/-- The last link, or a command in one piece: what was sent of the command so far is the rest of it. -/
theorem run_send_last {c d : Command} (hd : ¬ d.IsLink) (hp : f.parts = [])
    (ha : Alike (d.withData (f.links ++ d.data)) c) (hs : h.shows t f) :
    ∃ r t' f', send card d t = (.ok r, t') ∧ h.shows t' f' ∧
      (d.fits .short = false ∧ r.sw = .wrongLength ∧ f' = { f with links := [] } ∨
        Sent logical { f with links := [] } c r f') := by
  obtain ⟨r, t', f', ht, hans, hs⟩ := run_send h d hs
  have hdrop : f.drop = { f with links := [] } := by rw [FrontEnd.drop, hp]
  refine ⟨r, t', f', ht, hs, ?_⟩
  cases hans with
  | fetch _ hl => rw [hp] at hl; cases hl
  | handle _ hh =>
    cases hh with
    | keep hl _ => exact absurd hl hd
    | refuse _ hx hw => exact .inl ⟨hx, hw, hdrop⟩
    | correct _ hf exact hne hsw =>
      rw [hdrop]
      exact .inr (.corrected hf exact hne hsw)
    | execute _ hparts hfew => exact .inr (.executed ha hparts hfew)

include h in
/-- The links of a chain whose data are the rest of a command. -/
theorem run_sendLinks {c : Command} (hc : ¬ c.IsLink) (total : Nat) {pieces : List Bytes}
    (hne : pieces ≠ []) (hl : ∀ b ∈ pieces, b.length ≤ 255) :
    ∀ {f : FrontEnd σ} {t : τ} (index : Nat), f.parts = [] → c.data = f.links ++ pieces.flatten → h.shows t f →
      ∃ r t' f', sendLinks card total index (c.links pieces) t = (.ok r, t') ∧ h.shows t' f' ∧
        Sent logical { f with links := [] } c r f' := by
  induction pieces with
  | nil => exact absurd rfl hne
  | cons data rest ih =>
    intro f t index hp hd hs
    cases rest with
    | nil =>
      have ha : Alike ((c.toShort.withData data).withData (f.links ++ data)) c := by
        rw [List.flatten_cons, List.flatten_nil, List.append_nil] at hd
        rw [← hd]
        rfl
      obtain ⟨r, t', f', ht, hs, hr | hr⟩ := run_send_last h (d := c.toShort.withData data) hc hp ha hs
      · have hfits := Apdu.Command.fits_short_toShort (c := c.withData data) (hl data (List.mem_singleton.mpr rfl))
        exact absurd (hfits.symm.trans hr.1) (by decide)
      · exact ⟨r, t', f', ht, hs, hr⟩
    | cons next rest =>
      obtain ⟨r, t', ht, hok, hs⟩ := run_send_link h
        (c := { c with cla := c.cla ||| Command.chainingBit, data, ne := 0, ne_le := by decide })
        (Apdu.Command.or_chainingBit c.cla) hp hs
      have hr : r.isSuccess = true := by simp [Response.isSuccess, StatusWord.isSuccess, hok]
      have hd' : c.data = (f.links ++ data) ++ (next :: rest).flatten := by
        rw [hd, List.flatten_cons, List.append_assoc]
      obtain ⟨r', t'', f'', ht', hs', hsent⟩ := ih (List.cons_ne_nil _ _)
        (fun b hb => hl b (List.mem_cons_of_mem _ hb)) (f := { f with links := f.links ++ data }) (index + 1) hp hd' hs
      refine ⟨r', t'', f'', ?_, hs', hsent⟩
      rw [Apdu.Command.links, sendLinks, Action.bind_of_ok ht, if_pos hr]
      · exact ht'
      · exact Apdu.Command.links_ne_nil c (List.cons_ne_nil next rest)
      · intro hnil
        cases hnil

include h in
/-- A command as a chain. -/
theorem run_sendChain {c : Command} (hc : ¬ c.IsLink) (size : Nat) (hl : f.links = []) (hp : f.parts = [])
    (hs : h.shows t f) : ∃ r t' f', sendChain card c size t = (.ok r, t') ∧ h.shows t' f' ∧ Sent logical f c r f' := by
  have hself : { f with links := [] } = f := by rw [← hl]
  have hsize : 0 < Command.linkSize size ∧ Command.linkSize size ≤ 255 := by
    unfold Command.linkSize
    omega
  unfold sendChain Command.chain
  split
  · rename_i hshort
    have ha : Alike (c.toShort.withData (f.links ++ c.toShort.data)) c := by
      rw [hl]
      rfl
    obtain ⟨r, t', f', ht, hs, hr | hr⟩ := run_send_last h (d := c.toShort) hc hp ha hs
    · have hfits := Apdu.Command.fits_short_toShort (c := c) (by omega)
      exact absurd (hfits.symm.trans hr.1) (by decide)
    · rw [hself] at hr
      exact ⟨r, t', f', ht, hs, hr⟩
  · rename_i hlong
    have hdata : c.data ≠ [] := by
      intro hd
      rw [hd] at hlong
      exact hlong (Nat.zero_le _)
    have hne : chunks (Command.linkSize size) c.data ≠ [] := by
      rw [chunks_of_ne_nil hsize.1 hdata]
      exact List.cons_ne_nil _ _
    have hle : ∀ b ∈ chunks (Command.linkSize size) c.data, b.length ≤ 255 := by
      intro b hb
      exact Nat.le_trans (length_of_mem_chunks hsize.1 hb).2 hsize.2
    have hd : c.data = f.links ++ (chunks (Command.linkSize size) c.data).flatten := by
      rw [flatten_chunks hsize.1, hl]
      rfl
    have hrun := run_sendLinks h hc (c.links (chunks (Command.linkSize size) c.data)).length hne hle 0 hp hd hs
    rwa [hself] at hrun

include h in
/-- A command in the form it needs and the card takes. -/
theorem run_sendWhole {c : Command} (hc : ¬ c.IsLink) (size : Nat) (hl : f.links = []) (hp : f.parts = [])
    (hs : h.shows t f) : ∃ r t' f', sendWhole card c size t = (.ok r, t') ∧ h.shows t' f' ∧ Sent logical f c r f' := by
  have hself : { f with links := [] } = f := by rw [← hl]
  have ha : Alike (c.withData (f.links ++ c.data)) c := by
    rw [hl]
    rfl
  unfold sendWhole
  by_cases hfits : c.fits .short = true
  · rw [if_pos hfits]
    obtain ⟨r, t', f', ht, hs, hr | hr⟩ := run_send_last h hc hp ha hs
    · exact absurd (hfits.symm.trans hr.1) (by decide)
    · rw [hself] at hr
      exact ⟨r, t', f', ht, hs, hr⟩
  · rw [if_neg hfits, Action.run_bind, Action.run_get]
    by_cases hx : card.supportsExtended t = true
    · simp only [hx, if_true]
      obtain ⟨r, t', f', ht, hs', hr⟩ := run_send_last h hc hp ha hs
      rw [hself] at hr
      rw [Action.bind_of_ok ht]
      rcases hr with ⟨-, hsw, he⟩ | hr
      · rw [if_pos hsw]
        rw [he] at hs'
        exact run_sendChain h hc size hl hp hs'
      · have hsw : r.sw ≠ .wrongLength := by
          cases hr with
          | corrected _ exact _ hsw =>
            rw [hsw]
            intro he
            cases he
          | executed _ hparts _ => exact (hparts.exactLength?_eq (logical.isFinal _ _)).2
        rw [if_neg hsw]
        exact ⟨r, t', f', rfl, hs', hr⟩
    · simp only [hx, Bool.false_eq_true, if_false]
      exact run_sendChain h hc size hl hp hs

/-! ## Replies received -/

include h in
/-- A front end that is asked for more hands out the next part. -/
theorem run_getResponse {r : Response} {rest : List Response} (hp : f.parts = r :: rest) (available : UInt8)
    (hs : h.shows t f) :
    ∃ t', send card (.getResponse available) t = (.ok r, t') ∧ h.shows t' { f with parts := rest } := by
  obtain ⟨r', t', f', ht, ha, hs⟩ := run_send h (.getResponse available) hs
  cases ha with
  | handle hnew _ =>
    refine absurd ⟨Apdu.Command.isGetResponse_getResponse available, ?_⟩ hnew
    rw [hp]
    exact List.cons_ne_nil _ _
  | fetch _ hleft =>
    rw [hp] at hleft
    obtain ⟨rfl, rfl⟩ := List.cons.inj hleft
    exact ⟨t', ht, hs⟩

include h in
/-- The parts that are left are fetched to the end. -/
theorem run_fetch {rest : Bytes} {sw : StatusWord} {parts : List Response} (hparts : Parts ⟨rest, sw⟩ parts)
    (hf : IsFinal sw) :
    ∀ {f : FrontEnd σ} {t : τ} {n : Nat} (received : Bytes) (available : UInt8), f.parts = parts → parts.length ≤ n →
      h.shows t f →
      ∃ t', fetch card n received available t = (.ok ⟨received ++ rest, sw⟩, t') ∧
        h.shows t' { f with parts := [] } := by
  generalize hreply : (⟨rest, sw⟩ : Response) = reply at hparts
  induction hparts generalizing rest with
  | last reply =>
    subst hreply
    intro f t n received available hp hn hs
    cases n with
    | zero => cases hn
    | succ n =>
      obtain ⟨t', ht, hs⟩ := run_getResponse h hp available hs
      have hrem : sw.remaining? = none := if_neg hf.1
      refine ⟨t', ?_, hs⟩
      rw [fetch, Action.bind_of_ok ht]
      simp only [hrem]
      rfl
  | @more data rest' sw' parts available' hmore ih =>
    obtain ⟨rfl, rfl⟩ := Response.mk.inj hreply
    intro f t n received available hp hn hs
    cases n with
    | zero => cases hn
    | succ n =>
      obtain ⟨t', ht, hs⟩ := run_getResponse h hp available hs
      obtain ⟨t'', ht', hs'⟩ := ih rfl (f := { f with parts }) (n := n) (received ++ data) available' rfl
        (Nat.le_of_succ_le_succ hn) hs
      refine ⟨t'', ?_, hs'⟩
      rw [fetch, Action.bind_of_ok ht]
      show fetch card n (received ++ data) available' t' = _
      rw [ht', List.append_assoc]

include h in
/-- The first part of a reply is completed to the whole. -/
theorem run_complete {reply r : Response} {rest : List Response} (hparts : Parts reply (r :: rest))
    (hfew : (r :: rest).length ≤ 65) (hf : IsFinal reply.sw) (hp : f.parts = rest) (hs : h.shows t f) :
    ∃ t', complete card r t = (.ok reply, t') ∧ h.shows t' { f with parts := [] } := by
  cases hparts with
  | last =>
    have hrem : reply.sw.remaining? = none := if_neg hf.1
    refine ⟨t, ?_, by rwa [← hp]⟩
    unfold complete
    simp only [hrem]
    rfl
  | more available hmore => exact run_fetch h hmore hf _ available hp (Nat.le_of_succ_le_succ hfew) hs

/-! ## Exchanges -/

include h in
/-- A command that was executed is answered by its whole reply. -/
theorem run_executed {c d : Command} {r : Response} {rest : List Response} (ha : Alike d c)
    (hparts : Parts (logical.execute d f.logical).1 (r :: rest)) (hfew : (r :: rest).length ≤ 65)
    (hs : h.shows t (f.execute logical d rest)) :
    ∃ t', complete card r t = (.ok (logical.execute c f.logical).1, t') ∧ h.shows t' (f.execute logical d []) := by
  obtain ⟨t', ht, hs⟩ := run_complete h hparts hfew (logical.isFinal d f.logical) rfl hs
  rw [logical.reply_alike ha] at ht
  exact ⟨t', ht, hs⟩

/-- Through every front end, whatever it refuses and however it cuts its replies, an exchange returns the whole reply
of the logical card, which has executed the command exactly once, and leaves the front end at rest. -/
theorem transmit_refines (logical : LogicalCard σ) (card : Card τ) (h : Fronts logical card) (c : Command)
    (hc : c.cla &&& Command.chainingBit = 0) (size : Nat) (t : τ) (f : FrontEnd σ) (hs : h.shows t f)
    (hr : f.AtRest) :
    ∃ t' f' d, transmit card c size t = (.ok (logical.execute c f.logical).1, t') ∧ h.shows t' f' ∧ f'.AtRest ∧
      Alike d c ∧ f'.executed = f.executed ++ [d] ∧ f'.logical = (logical.execute d f.logical).2 := by
  have hlink : ∀ n, ¬ (c.withNe n).IsLink := fun _ hl => hl hc
  have hrest : ∀ d, (f.execute logical d []).AtRest := fun d => ⟨rfl, rfl, rfl⟩
  obtain ⟨r, t₁, f₁, ht, hs, hsent⟩ := run_sendWhole h (hlink c.ne) size hr.links hr.parts hs
  have hself : c.withNe c.ne = c := by
    have hne : min c.ne 65536 = c.ne := Nat.min_eq_left c.ne_le
    simp [Apdu.Command.withNe, hne]
  rw [hself] at ht hsent
  unfold transmit
  rw [Action.bind_of_ok ht]
  cases hsent with
  | @executed d rest ha hparts hfew =>
    obtain ⟨t', ht', hs'⟩ := run_executed h ha hparts hfew hs
    refine ⟨t', f.execute logical d [], d, ?_, hs', hrest d, ha, rfl, rfl⟩
    simp only [(hparts.exactLength?_eq (logical.isFinal _ _)).1]
    exact ht'
  | corrected _ exact hne hsw =>
    have hexact : r.sw.exactLength? = some exact := by
      rw [hsw]
      exact if_pos ⟨rfl, hne⟩
    obtain ⟨r', t₂, f₂, ht', hs', hsent'⟩ :=
      run_sendWhole h (hlink exact.toNat) size (f := { f with corrected := true })
      hr.links hr.parts hs
    simp only [hexact]
    rw [Action.bind_of_ok ht']
    cases hsent' with
    | corrected hfirst _ _ _ => cases hfirst
    | @executed d rest ha hparts hfew =>
      have ha : Alike d c := ha.trans (Apdu.Command.alike_withNe c exact.toNat)
      obtain ⟨t', ht'', hs''⟩ := run_executed h (f := f) ha hparts hfew hs'
      exact ⟨t', f.execute logical d [], d, ht'', hs'', hrest d, ha, rfl, rfl⟩

end Sending

/-- A front end that refuses whatever it may refuse before it executes, and hands its replies out in two parts. -/
def reluctant (logical : LogicalCard σ) : Card (FrontEnd σ) where
  connect := pure ()
  transceive c f :=
    match f.parts with
    | r :: rest => if c.IsGetResponse then (.ok r, { f with parts := rest }) else handle c f
    | [] => handle c f
  release := id
  isConnected _ := true
  supportsExtended _ := true
where
  handle (c : Command) (f : FrontEnd σ) : Except Link.Error Response × FrontEnd σ :=
    let whole := c.withData (f.links ++ c.data)
    let reply := (logical.execute whole f.logical).1
    if c.IsLink then (.ok (.status .success), { f with links := f.links ++ c.data, parts := [] })
    else if c.fits .short = false then (.ok (.status .wrongLength), f.drop)
    else if f.corrected = false then (.ok (.status ⟨0x6c, 5⟩), { f.drop with corrected := true })
    else (.ok ⟨reply.data.take 5, ⟨0x61, 0⟩⟩, f.execute logical whole [⟨reply.data.drop 5, reply.sw⟩])

theorem parts_take_drop (reply : Response) (n : Nat) :
    Parts reply [⟨reply.data.take n, ⟨0x61, 0⟩⟩, ⟨reply.data.drop n, reply.sw⟩] := by
  have h : Parts ⟨reply.data.take n ++ reply.data.drop n, reply.sw⟩
      [⟨reply.data.take n, ⟨0x61, 0⟩⟩, ⟨reply.data.drop n, reply.sw⟩] := .more 0 (.last _)
  rwa [List.take_append_drop] at h

theorem handles_reluctant (logical : LogicalCard σ) (c : Command) (f : FrontEnd σ) :
    ∃ r f', reluctant.handle logical c f = (.ok r, f') ∧ Handles logical f c r f' := by
  unfold reluctant.handle
  split
  · rename_i hl
    exact ⟨_, _, rfl, .keep hl rfl⟩
  · rename_i hl
    split
    · rename_i hx
      exact ⟨_, _, rfl, .refuse hl hx rfl⟩
    · split
      · rename_i hf
        exact ⟨_, _, rfl, .correct hl hf 5 (by decide) rfl⟩
      · refine ⟨_, _, rfl, .execute hl (parts_take_drop _ 5) ?_⟩
        show 2 ≤ 65
        decide

/-- It is a front end. -/
def fronts_reluctant (logical : LogicalCard σ) : Fronts logical (reluctant logical) where
  shows t f := t = f
  answers := by
    rintro c t f rfl
    obtain ⟨r, f', hr, hh⟩ := handles_reluctant logical c t
    cases hp : t.parts with
    | nil =>
      refine ⟨r, f', f', ?_, .handle (fun h => h.2 hp) hh, rfl⟩
      simp only [reluctant, hp]
      exact hr
    | cons part rest =>
      by_cases hc : c.IsGetResponse
      · refine ⟨part, _, _, ?_, .fetch hc hp, rfl⟩
        simp only [reluctant, hp]
        exact if_pos hc
      · refine ⟨r, f', f', ?_, .handle (fun h => hc h.1) hh, rfl⟩
        simp only [reluctant, hp]
        exact (if_neg hc).trans hr

/-- A card that keeps what it is given and gives it back reversed. -/
def keeper : LogicalCard (List Bytes) where
  execute c kept := (.ok c.data.reverse, kept ++ [c.data])
  reply_withNe _ _ _ := rfl
  isFinal _ _ := by
    show IsFinal StatusWord.success
    unfold IsFinal
    decide

/-- Six hundred bytes and a long answer, to a card that refuses the extended form, then the length of the answer, and
then the extended form again. -/
theorem transmit_refines_reluctant :
    let c : Command := ((Command.header 0x80 0x10 0x00 0x00).withData (List.replicate 599 7 ++ [8])).withNe 65536
    c.cla &&& Command.chainingBit = 0 ∧
      ∃ t', transmit (reluctant keeper) c 200 ⟨[], [], [], false, []⟩ = (.ok (.ok (8 :: List.replicate 599 7)), t') ∧
        t'.logical = [List.replicate 599 7 ++ [8]] ∧ t'.executed.length = 1 := by
  intro c
  have hc : c.cla &&& Command.chainingBit = 0 := by decide
  obtain ⟨t', f', d, ht, hs, -, ha, he, hl⟩ := transmit_refines keeper (reluctant keeper) (fronts_reluctant keeper) c hc
    200 ⟨[], [], [], false, []⟩ _ rfl ⟨rfl, rfl, rfl⟩
  have hd : d.data = List.replicate 599 7 ++ [8] := congrArg Command.data ha
  have hreply : (keeper.execute c []).1 = .ok (8 :: List.replicate 599 7) := by
    have hrev : (List.replicate 599 7 ++ [8] : Bytes).reverse = 8 :: List.replicate 599 7 := by
      rw [List.reverse_append, List.reverse_replicate]
      rfl
    exact congrArg Response.ok hrev
  obtain rfl : t' = f' := hs
  refine ⟨hc, t', ht.trans ?_, ?_, ?_⟩
  · rw [hreply]
  · rw [hl, ← hd]
    rfl
  · rw [he]
    rfl

end Exchange

end SecurityKey
