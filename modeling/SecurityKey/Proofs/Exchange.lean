import SecurityKey.Exchange
import SecurityKey.Proofs.Action

/-!
# Single exchanges

- Every command is sent as it is to a card that takes the extended form. Where the card asks for nothing more (`Final`),
  its answer is the whole answer (`transmit_eq_send`);
- an exchange fails with nothing but errors of the link and answers that cannot be put together (`fails_transmit`). What
  the card says of a command is never such an error.
-/

namespace SecurityKey.Exchange

variable {σ : Type} {card : Card σ} {c : Apdu.Command} {s : σ}

/-- Neither more of the answer is to come, nor is the command to be sent in another way. -/
structure Final (sw : Apdu.StatusWord) : Prop where
  accepted : sw ≠ .wrongLength
  whole : sw.remaining? = none
  exact : sw.exactLength? = none

theorem final_success : Final .success := ⟨by decide, rfl, rfl⟩

/-- A command that a card takes in extended form, and answers at once where it answers, is sent once. -/
theorem transmit_eq_send (size : Nat) (hx : card.supportsExtended s = true)
    (h : ∀ r t, send card c s = (.ok r, t) → Final r.sw) : transmit card c size s = send card c s := by
  have hw : sendWhole card c size s = send card c s := by
    unfold sendWhole
    split
    · rfl
    simp only [Action.run_bind, Action.run_get, hx, if_true]
    rcases hs : send card c s with ⟨e | r, t⟩
    · rfl
    · simp only [(h r t hs).accepted, if_false, Action.run_pure]
  unfold transmit
  rw [Action.run_bind, hw]
  rcases hs : send card c s with ⟨e | r, t⟩
  · rfl
  · simp only [(h r t hs).exact, complete, (h r t hs).whole, Action.run_pure]

/-! ## Errors of exchanges -/

/-- An error of the link, or an answer that cannot be put together. -/
inductive OfTransport : Error → Prop
  | link (e : Link.Error) : OfTransport (.ofLink e)
  | assembly (reason : String) : OfTransport (.protocol reason)

variable (card c)

theorem fails_send (c : Apdu.Command) : Action.Fails OfTransport (send card c) :=
  .adapt (card.transceive c) .link

theorem fails_sendLinks (total : Nat) (links : List Apdu.Command) (index : Nat) :
    Action.Fails OfTransport (sendLinks card total index links) := by
  induction links generalizing index with
  | nil => exact .throw (.assembly _)
  | cons c rest ih =>
    cases rest with
    | nil => exact fails_send card c
    | cons next rest =>
      refine (fails_send card c).bind fun r => ?_
      split
      · exact ih (index + 1)
      · exact .throw (.link _)

theorem fails_sendWhole (size : Nat) : Action.Fails OfTransport (sendWhole card c size) := by
  have hchain : Action.Fails OfTransport (sendChain card c size) := fails_sendLinks card _ _ 0
  unfold sendWhole
  split
  · exact fails_send card c
  · refine .get_bind fun s => ?_
    split
    · refine (fails_send card c).bind fun r => ?_
      split
      · exact hchain
      · exact .pure _
    · exact hchain

theorem fails_fetch (parts : Nat) (received : Bytes) (available : UInt8) :
    Action.Fails OfTransport (fetch card parts received available) := by
  induction parts generalizing received available with
  | zero => exact .throw (.assembly _)
  | succ parts ih =>
    refine (fails_send card _).bind fun r => ?_
    split
    · exact ih _ _
    · exact .pure _

/-- What the card says of a command is no error of an exchange. -/
theorem fails_transmit (size : Nat) : Action.Fails OfTransport (transmit card c size) := by
  have hcomplete : ∀ r, Action.Fails OfTransport (complete card r) := by
    intro r
    unfold complete
    split
    · exact fails_fetch card _ _ _
    · exact .pure _
  unfold transmit
  refine (fails_sendWhole card c size).bind fun r => ?_
  split
  · exact (fails_sendWhole card _ size).bind hcomplete
  · exact hcomplete r

end SecurityKey.Exchange
