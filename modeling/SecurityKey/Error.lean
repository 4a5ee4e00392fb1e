import SecurityKey.Apdu.Response
import SecurityKey.Ctap.Message

/-!
# Errors of the protocol engine

Every error of a lower layer becomes one of these causes: `Error.ofLink`, `Error.ofStatus`, `Error.ofCtap` and
`Error.ofFidoStatus` say which. Each cause belongs to one category.
-/

namespace SecurityKey

/-- Why an operation failed. -/
inductive Error
  /-- The link to the device failed. -/
  | transport (e : Link.Error)
  /-- The device does not keep to the protocol. -/
  | protocol (reason : String)
  /-- A secret was wrong; how many attempts are left, if known. -/
  | securityStatus (retries : Option UInt8)
  | blocked
  | unsupported (what : String)
  | cancelled
  | timeout
  /-- The user has to touch the device. -/
  | presenceRequired
  /-- A PIN is needed and none was given. -/
  | pinRequired
  /-- A PIN is needed and none is set. -/
  | pinNotSet
  /-- One attempt is left and the caller did not consent to use it. -/
  | lastAttempt
  /-- A PIN is shorter than allowed. -/
  | pinTooShort
  /-- A PIN is longer than allowed. -/
  | pinTooLong
  | noCredentials
  | ctap (status : Ctap.Status)
  deriving DecidableEq, Repr

/-- The kinds of causes. -/
inductive Category
  | transport
  | protocol
  | securityStatus
  | blocked
  | unsupported
  | cancelled
  deriving DecidableEq, Repr

namespace Error

/-- The text of an error. -/
def message : Error → String
  | transport e => "transport error: " ++ e.message
  | protocol reason => "protocol error: " ++ reason
  | securityStatus retries =>
    "security status not satisfied (retries remaining: " ++
      (match retries with | some n => toString n | none => "unknown") ++ ")"
  | blocked => "authentication method blocked"
  | unsupported what => "unsupported: " ++ what
  | cancelled => "operation cancelled"
  | timeout => "operation timed out"
  | presenceRequired => "user presence required"
  | pinRequired => "PIN required"
  | pinNotSet => "no PIN set on the device"
  | lastAttempt => "only one PIN attempt left"
  | pinTooShort => "PIN too short"
  | pinTooLong => "PIN too long"
  | noCredentials => "no matching credentials"
  | ctap status => "authenticator error: " ++ status.message

/-- The kind of an error. -/
def category : Error → Category
  | transport _ | timeout | presenceRequired => .transport
  | protocol _ | noCredentials | ctap _ => .protocol
  | securityStatus _ | pinRequired | pinNotSet | lastAttempt | pinTooShort | pinTooLong => .securityStatus
  | blocked => .blocked
  | unsupported _ => .unsupported
  | cancelled => .cancelled

/-- Whether the device is gone. -/
def isDisconnect : Error → Bool
  | transport .notConnected => true
  | transport .deviceNotFound => true
  | _ => false

/-- The cause behind an error of the link. -/
def ofLink : Link.Error → Error
  | .timeout => timeout
  | e@(.invalidPacket) | e@(.invalidChannel ..) | e@(.invalidSequence ..) | e@(.fragmentationError)
  | e@(.nonceMismatch) | e@(.malformedResponse _) => protocol e.message
  | e => transport e

/-- The cause behind a status of an authenticator. -/
def ofStatus : Ctap.Status → Error
  | .pinRequired => pinRequired
  | .pinNotSet => pinNotSet
  | .pinBlocked | .pinAuthBlocked => blocked
  | .noCredentials | .invalidCredential => noCredentials
  | .userActionTimeout | .actionTimeout => timeout
  | .keepaliveCancel => cancelled
  | .pinInvalid => securityStatus none
  | status => ctap status

/-- The cause behind an error of a key or a cipher. -/
def ofCrypto (e : Crypto.Error) : Error := protocol e.message

/-- The cause behind an error of an item. -/
def ofCbor (e : Cbor.Error) : Error := protocol e.message

/-- The cause behind a refused answer of an authenticator. -/
def ofCtap : Ctap.Error → Error
  | .status status => ofStatus status
  | .cbor e => ofCbor e
  | .crypto e => ofCrypto e
  | .invalidResponse reason => protocol reason

/-- The cause behind a status word of a FIDO application. -/
def ofFidoStatus (sw : Apdu.StatusWord) : Error :=
  if sw = .conditionsNotSatisfied then presenceRequired
  else if sw = .wrongData then noCredentials
  else if sw = .fileNotFound then unsupported "FIDO applet not found"
  else if sw = .claNotSupported then unsupported "class not supported"
  else if sw = .insNotSupported then unsupported "instruction not supported"
  else if sw = .wrongLength then protocol "wrong request length"
  else protocol ("unexpected status word " ++ sw.message)

end Error

end SecurityKey
