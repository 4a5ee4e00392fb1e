import SecurityKey.Exchange
import SecurityKey.Pin

/-!
# Sessions with an OpenPGP card

A session remembers the card's PIN status and which PINs were verified, and verifies no PIN twice. Lengths of new PINs
are checked before they are sent. Where the card does not tell how many attempts are left, its status is read again
(`Session.requestFor`).

`Session.changePins` sets a new admin PIN first and a new user PIN under it.
-/

namespace SecurityKey.OpenPgp

/-! ## PINs of the card -/

/-- What a PIN is verified for. -/
inductive PinReference
  | signing
  /-- The user PIN, for anything else. -/
  | other
  | admin
  deriving DecidableEq

/-- The number of a reference. -/
def PinReference.toByte : PinReference → UInt8
  | signing => 0x81
  | other => 0x82
  | admin => 0x83

/-- What the card tells about its PINs. -/
structure PinStatus where
  /-- Whether one verification of the user PIN is good for several signatures. -/
  severalSignatures : Bool
  /-- The longest user PIN, zero for any. -/
  userMax : UInt8
  resetMax : UInt8
  /-- The longest admin PIN, zero for any. -/
  adminMax : UInt8
  /-- How many attempts at the user PIN are left. -/
  userRetries : UInt8
  /-- How many attempts at the reset code are left. -/
  resetRetries : UInt8
  /-- How many attempts at the admin PIN are left. -/
  adminRetries : UInt8
  deriving DecidableEq

namespace PinStatus

/-- The status of its bytes. The top bit of a PIN's length tells its format and does not count. -/
def parse (data : Bytes) : Except Error PinStatus :=
  match data with
  | validity :: userMax :: resetMax :: adminMax :: userRetries :: resetRetries :: adminRetries :: _ =>
    .ok ⟨validity ≠ 0, userMax &&& 0x7f, resetMax, adminMax &&& 0x7f, userRetries, resetRetries, adminRetries⟩
  | _ => .error (.protocol ("PW status has " ++ toString data.length ++ " bytes, expected 7"))

/-- How many attempts are left. -/
def retries (s : PinStatus) : PinReference → UInt8
  | .signing => s.userRetries
  | .other => s.userRetries
  | .admin => s.adminRetries

end PinStatus

/-- The shortest user PIN. -/
def userMin : Nat := 4

/-- The shortest admin PIN. -/
def adminMin : Nat := 8

/-- Whether a new PIN has an allowed length. -/
def checkLength (pin : Pin) (min : Nat) (max : UInt8) : Except Error Unit :=
  let n := pin.bytes.length
  if n < min then .error .pinTooShort
  else if 0 < max ∧ max.toNat < n then .error .pinTooLong
  else .ok ()

/-! ## Errors -/

/-- The error of a wrong PIN, given how many attempts are left. -/
def attemptsError : Option UInt8 → Error
  | some 0 => .blocked
  | retries => .securityStatus retries

/-- The error of a refused command. -/
def statusError (sw : Apdu.StatusWord) : Error :=
  match sw.retries? with
  | some n => attemptsError (some n)
  | none =>
    if sw = .securityStatusNotSatisfied then attemptsError none
    else if sw = .authMethodBlocked then .blocked
    else if sw = .wrongData ∨ sw = .wrongLength then .pinTooShort
    else if sw = .fileNotFound then .unsupported "OpenPGP applet not found"
    else if sw = .claNotSupported then .unsupported "class not supported"
    else if sw = .insNotSupported then .unsupported "instruction not supported"
    else if sw = .terminationState then .protocol "OpenPGP applet is terminated"
    else if sw = .conditionsNotSatisfied then .protocol "conditions of use not satisfied"
    else .protocol ("unexpected status word " ++ sw.message)

/-! ## Sessions -/

/-- What the host knows about an OpenPGP card, together with the card. -/
structure Session (σ : Type) where
  card : σ
  /-- The status that was read last. -/
  status : Option PinStatus
  verified : PinReference → Bool

namespace Session

variable {σ : Type}

/-- The session before anything was sent. -/
def new (card : σ) : Session σ := ⟨card, none, fun _ => false⟩

/-- The session after a reference was verified or not. -/
def mark (r : PinReference) (v : Bool) (s : Session σ) : Session σ :=
  { s with verified := fun x => if x = r then v else s.verified x }

/-- The session without any verification. -/
def resetVerification (s : Session σ) : Session σ := { s with verified := fun _ => false }

/-- The session after a signature. It uses up the verification for signing, unless the card is known to accept
several. -/
def useSignature (s : Session σ) : Session σ :=
  if (s.status.map PinStatus.severalSignatures).getD false then s else s.mark .signing false

variable (card : Card σ)

/-- The application's identifier, without version and serial number. -/
def aid : Bytes := [0xd2, 0x76, 0x00, 0x01, 0x24, 0x01]

/-- How much data a link of a chain carries. -/
def chunkSize : Nat := 254

/-- An action of the card as one of the session. -/
def onCard {ε α : Type} (a : Action σ ε α) : Action (Session σ) ε α :=
  Action.zoom Session.card (fun c s => { s with card := c }) a

/-- One command and its answer, which has to be successful. -/
def request (c : Apdu.Command) : Action (Session σ) Error Apdu.Response := do
  let r ← onCard (Exchange.transmit card c chunkSize)
  if r.isSuccess then return r else throw (statusError r.sw)

/-- The status of the card, read again. -/
def refreshStatus : Action (Session σ) Error PinStatus := do
  let r ← request card ((Apdu.Command.header 0x00 0xca 0x00 0xc4).withNe 256)
  let status ← Action.ofExcept id (PinStatus.parse r.data)
  modify fun s => { s with status := some status }
  return status

/-- The status that is known, or is read now. -/
def knownStatus : Action (Session σ) Error PinStatus := do
  match (← get).status with
  | some status => return status
  | none => refreshStatus card

/-- How many attempts the card says are left, if it says so. -/
def readRetries (r : PinReference) : Action (Session σ) Error (Option UInt8) := do
  match ← Action.observe (refreshStatus card) with
  | .ok status => return some (status.retries r)
  | .error _ => return none

/-- One command that needs a PIN. A refusal that does not tell how many attempts are left is completed by the status
of the card. -/
def requestFor (r : PinReference) (c : Apdu.Command) : Action (Session σ) Error Unit := do
  let a ← onCard (Exchange.transmit card c chunkSize)
  if a.isSuccess then return
  else if a.sw = .securityStatusNotSatisfied then throw (attemptsError (← readRetries card r))
  else throw (statusError a.sw)

/-! ## Operations -/

/-- The application selected, on a card that is connected first where it is not. -/
def select : Action (Session σ) Error PinStatus := do
  if !card.isConnected (← get).card then onCard (card.connect.adapt Error.ofLink)
  modify resetVerification
  let _ ← request card (.select aid)
  refreshStatus card

/-- The command that verifies a PIN. -/
def verifyApdu (r : PinReference) (pin : Pin) : Apdu.Command :=
  (Apdu.Command.header 0x00 0x20 0x00 r.toByte).withData pin.bytes

/-- A PIN verified, unless it was before. -/
def verify (r : PinReference) (pin : Pin) : Action (Session σ) Error Unit := do
  if (← get).verified r then return
  requestFor card r (verifyApdu r pin)
  modify (mark r true)

/-- The command that changes the admin PIN. -/
def changeAdminApdu (current new : Pin) : Apdu.Command :=
  (Apdu.Command.header 0x00 0x24 0x00 PinReference.admin.toByte).withData (current.bytes ++ new.bytes)

/-- Another admin PIN in place of the current one. -/
def changeAdminPin (current new : Pin) : Action (Session σ) Error Unit := do
  let status ← knownStatus card
  Action.ofExcept id (checkLength new adminMin status.adminMax)
  requestFor card .admin (changeAdminApdu current new)
  modify (mark .admin false)

/-- The command by which the admin sets the user PIN. -/
def resetUserApdu (new : Pin) : Apdu.Command :=
  (Apdu.Command.header 0x00 0x2c 0x02 PinReference.signing.toByte).withData new.bytes

/-- Another user PIN, set by the admin. -/
def resetUserPin (admin new : Pin) : Action (Session σ) Error Unit := do
  verify card .admin admin
  let status ← knownStatus card
  Action.ofExcept id (checkLength new userMin status.userMax)
  requestFor card .signing (resetUserApdu new)
  modify resetVerification

/-- Another admin PIN, and then another user PIN. -/
def changePins (admin newAdmin newUser : Pin) : Action (Session σ) Error Unit := do
  let status ← knownStatus card
  Action.ofExcept id (checkLength newAdmin adminMin status.adminMax)
  Action.ofExcept id (checkLength newUser userMin status.userMax)
  changeAdminPin card admin newAdmin
  resetUserPin card newAdmin newUser

end Session

end SecurityKey.OpenPgp
