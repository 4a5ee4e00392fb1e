import SecurityKey.Apdu.Command
import SecurityKey.Apdu.Response

/-!
# Cards

A card is anything that takes commands and answers them: a smart card in a reader, or a device behind a HID link. Its
behaviour is a state machine over a state of its own, and every answer, refusal and loss of the connection is a step
of that machine.
-/

namespace SecurityKey

/-- An action on a state that gives a result or fails; the state it leaves counts in both cases. -/
abbrev Action (σ ε α : Type) := ExceptT ε (StateM σ) α

/-- An action whose failure is a result, so that whoever runs it can go on. -/
def Action.observe {σ ε ε' α : Type} (a : Action σ ε α) : Action σ ε' (Except ε α) := fun s =>
  let (r, s) := a s
  (.ok r, s)

/-- An action on a part of a state. -/
def Action.zoom {σ τ ε α : Type} (part : τ → σ) (put : σ → τ → τ) (a : Action σ ε α) : Action τ ε α := fun t =>
  let (r, s) := a (part t)
  (r, put s t)

/-- A value that may be an error, as an action. -/
def Action.ofExcept {σ ε ε' α : Type} (f : ε → ε') (r : Except ε α) : Action σ ε' α := fun s =>
  (r.mapError f, s)

/-- A card over a state of its own. -/
structure Card (σ : Type) where
  connect : Action σ Link.Error Unit
  /-- Sends one command and receives its answer. -/
  transceive : Apdu.Command → Action σ Link.Error Apdu.Response
  release : σ → σ
  isConnected : σ → Bool
  /-- Whether the card takes commands in extended form. -/
  supportsExtended : σ → Bool

end SecurityKey
