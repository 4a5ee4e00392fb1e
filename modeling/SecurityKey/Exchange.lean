import SecurityKey.Card
import SecurityKey.Error

/-!
# Exchanging whole commands

`transmit` sends a command of any length and returns the whole answer. A command that does not fit the short form is
sent in extended form where the card takes it, otherwise as a chain. Where the card names the length it wants to be
asked for, the command is sent once more with that length. An answer in several parts is fetched to its end.
-/

namespace SecurityKey

namespace Exchange

variable {σ : Type} (card : Card σ)

/-- How many further parts an answer may have. -/
def maxParts : Nat := 64

/-- One command and its answer. -/
def send (c : Apdu.Command) : Action σ Error Apdu.Response :=
  (card.transceive c).adapt Error.ofLink

/-- The links of a chain, one after the other. A link that is refused before the last one ends the chain. -/
def sendLinks (total index : Nat) : List Apdu.Command → Action σ Error Apdu.Response
  | [] => throw (.protocol "empty command chain")
  | [c] => send card c
  | c :: rest => do
    let r ← send card c
    if r.isSuccess then sendLinks total (index + 1) rest
    else throw (.ofLink (.chainingFailed index total r.sw.toUInt16))

/-- A command as a chain. -/
def sendChain (c : Apdu.Command) (size : Nat) : Action σ Error Apdu.Response :=
  let links := c.chain size
  sendLinks card links.length 0 links

/-- A command in the form it needs and the card takes. A refused length is answered by a chain. -/
def sendWhole (c : Apdu.Command) (size : Nat) : Action σ Error Apdu.Response := do
  if c.fits .short then send card c
  else if card.supportsExtended (← get) then
    let r ← send card c
    if r.sw = .wrongLength then sendChain card c size else return r
  else sendChain card c size

/-- The parts of an answer that are still on the card, behind the data received so far. -/
def fetch : (parts : Nat) → (received : Bytes) → (available : UInt8) → Action σ Error Apdu.Response
  | 0, _, _ => throw (.protocol "too many GET RESPONSE continuations")
  | parts + 1, received, available => do
    let r ← send card (.getResponse available)
    match r.sw.remaining? with
    | some more => fetch parts (received ++ r.data) more
    | none => return ⟨received ++ r.data, r.sw⟩

/-- The whole of an answer whose first part is given. -/
def complete (first : Apdu.Response) : Action σ Error Apdu.Response :=
  match first.sw.remaining? with
  | some available => fetch card maxParts first.data available
  | none => return first

/-- One command of any length and its whole answer. -/
def transmit (c : Apdu.Command) (size : Nat) : Action σ Error Apdu.Response := do
  let r ← sendWhole card c size
  match r.sw.exactLength? with
  | some exact => complete card (← sendWhole card (c.withNe exact.toNat) size)
  | none => complete card r

end Exchange

end SecurityKey
