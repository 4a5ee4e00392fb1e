import SecurityKey.Exchange
import SecurityKey.Pin
import SecurityKey.Piv.Signature

/-!
# Sessions with a PIV card

The PIN is sent in a field of eight bytes (`pinField`) and is verified once per session. `Session.sign` verifies it
and has a digest signed.
-/

namespace SecurityKey.Piv

/-- The keys of a card. -/
inductive KeySlot
  | authentication
  | signature
  | keyManagement
  | cardAuthentication
  deriving DecidableEq

/-- The number of a key. -/
def KeySlot.toByte : KeySlot → UInt8
  | authentication => 0x9a
  | signature => 0x9c
  | keyManagement => 0x9d
  | cardAuthentication => 0x9e

/-- The length of the field that holds a PIN. -/
def pinFieldLength : Nat := 8

/-- A PIN filled up to the length of its field. -/
def pinField (pin : Pin) : Except Error Bytes :=
  let b := pin.bytes
  if b.isEmpty then .error .pinTooShort
  else if pinFieldLength < b.length then .error .pinTooLong
  else .ok (b ++ List.replicate (pinFieldLength - b.length) 0xff)

/-- The error of a refused command. -/
def statusError (sw : Apdu.StatusWord) : Error :=
  match sw.retries? with
  | some 0 => .blocked
  | some n => .securityStatus (some n)
  | none =>
    if sw = .authMethodBlocked then .blocked
    else if sw = .securityStatusNotSatisfied then .securityStatus none
    else if sw = .fileNotFound then .unsupported "PIV applet not found"
    else if sw = .insNotSupported then .unsupported "instruction not supported"
    else if sw = .claNotSupported then .unsupported "class not supported"
    else .protocol ("unexpected status word " ++ sw.message)

/-- What the host knows about a PIV card, together with the card. -/
structure Session (σ : Type) where
  card : σ
  pinVerified : Bool

namespace Session

variable {σ : Type}

/-- The session before anything was sent. -/
def new (card : σ) : Session σ := ⟨card, false⟩

/-- The session after the PIN was verified or not. -/
def mark (v : Bool) (s : Session σ) : Session σ := { s with pinVerified := v }

variable (card : Card σ)

/-- The application's identifier, without version. -/
def aid : Bytes := [0xa0, 0x00, 0x00, 0x03, 0x08]

/-- How much data a link of a chain carries. -/
def chunkSize : Nat := 255

/-- The number of the PIN in commands. -/
def pinReference : UInt8 := 0x80

/-- An action of the card as one of the session. -/
def onCard {ε α : Type} (a : Action σ ε α) : Action (Session σ) ε α :=
  Action.zoom Session.card (fun c s => { s with card := c }) a

/-- One command and the data of its answer, which has to be successful. -/
def request (c : Apdu.Command) : Action (Session σ) Error Bytes := do
  let r ← onCard (Exchange.transmit card c chunkSize)
  if r.isSuccess then return r.data else throw (statusError r.sw)

/-- The application selected, on a card that is connected first where it is not. -/
def select : Action (Session σ) Error Unit := do
  if !card.isConnected (← get).card then onCard (card.connect.adapt Error.ofLink)
  modify (mark false)
  let _ ← request card (.select aid)

/-- The PIN verified, unless it was before. -/
def verifyPin (pin : Pin) : Action (Session σ) Error Unit := do
  if (← get).pinVerified then return
  let field ← Action.ofExcept id (pinField pin)
  let _ ← request card ((Apdu.Command.header 0x00 0x20 0x00 pinReference).withData field)
  modify (mark true)

/-- The data by which the unblocking key sets another PIN. -/
def resetData (puk new : Pin) : Except Error Bytes := do
  return (← pinField puk) ++ (← pinField new)

/-- Another PIN, set by means of the unblocking key. -/
def resetPin (puk new : Pin) : Action (Session σ) Error Unit := do
  let data ← Action.ofExcept id (resetData puk new)
  let _ ← request card ((Apdu.Command.header 0x00 0x2c 0x00 pinReference).withData data)
  modify (mark false)

/-- The signature of a digest. -/
def sign (pin : Pin) (slot : KeySlot) (key : KeyAlgorithm) (hash : Bytes) (algorithm : HashAlgorithm) :
    Action (Session σ) Error Bytes := do
  verifyPin card pin
  let template ← Action.ofExcept id (signatureTemplate hash algorithm key)
  let data ← request card
    (((Apdu.Command.header 0x00 0x87 key.id slot.toByte).withData template).withNe 256)
  Action.ofExcept id (readSignature data)

end Session

end SecurityKey.Piv
