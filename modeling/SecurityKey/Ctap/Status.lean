import SecurityKey.Bytes

/-!
# Status codes of CTAP2

Every answer begins with one status byte. `Status.ofByte` and `Status.toByte` pass between the codes and the byte
(`toByte_ofByte`).
-/

namespace SecurityKey.Ctap

/-- What an authenticator says about a command. -/
inductive Status
  | success
  | invalidCommand
  | invalidParameter
  | invalidLength
  | invalidSeq
  | timeout
  | channelBusy
  | lockRequired
  | invalidChannel
  | cborUnexpectedType
  | invalidCbor
  | missingParameter
  | limitExceeded
  | unsupportedExtension
  | credentialExcluded
  | processing
  | invalidCredential
  | userActionPending
  | operationPending
  | noOperations
  | unsupportedAlgorithm
  | operationDenied
  | keyStoreFull
  | noOperationPending
  | unsupportedOption
  | invalidOption
  | keepaliveCancel
  | noCredentials
  | userActionTimeout
  | notAllowed
  | pinInvalid
  | pinBlocked
  | pinAuthInvalid
  | pinAuthBlocked
  | pinNotSet
  | pinRequired
  | pinPolicyViolation
  | pinTokenExpired
  | requestTooLarge
  | actionTimeout
  | upRequired
  | other
  /-- A byte without a meaning of its own. -/
  | unknown (code : UInt8)
  deriving DecidableEq, Repr

namespace Status

/-- The byte of a status. -/
def toByte : Status → UInt8
  | success => 0x00
  | invalidCommand => 0x01
  | invalidParameter => 0x02
  | invalidLength => 0x03
  | invalidSeq => 0x04
  | timeout => 0x05
  | channelBusy => 0x06
  | lockRequired => 0x0a
  | invalidChannel => 0x0b
  | cborUnexpectedType => 0x11
  | invalidCbor => 0x12
  | missingParameter => 0x14
  | limitExceeded => 0x15
  | unsupportedExtension => 0x16
  | credentialExcluded => 0x19
  | processing => 0x21
  | invalidCredential => 0x22
  | userActionPending => 0x23
  | operationPending => 0x24
  | noOperations => 0x25
  | unsupportedAlgorithm => 0x26
  | operationDenied => 0x27
  | keyStoreFull => 0x28
  | noOperationPending => 0x2a
  | unsupportedOption => 0x2b
  | invalidOption => 0x2c
  | keepaliveCancel => 0x2d
  | noCredentials => 0x2e
  | userActionTimeout => 0x2f
  | notAllowed => 0x30
  | pinInvalid => 0x31
  | pinBlocked => 0x32
  | pinAuthInvalid => 0x33
  | pinAuthBlocked => 0x34
  | pinNotSet => 0x35
  | pinRequired => 0x36
  | pinPolicyViolation => 0x37
  | pinTokenExpired => 0x38
  | requestTooLarge => 0x39
  | actionTimeout => 0x3a
  | upRequired => 0x3b
  | other => 0x7f
  | unknown code => code

/-- The text of a status. -/
def message : Status → String
  | success => "success"
  | invalidCommand => "invalid command"
  | invalidParameter => "invalid parameter"
  | invalidLength => "invalid length"
  | invalidSeq => "invalid message sequencing"
  | timeout => "message timed out"
  | channelBusy => "channel busy"
  | lockRequired => "command requires channel lock"
  | invalidChannel => "invalid channel"
  | cborUnexpectedType => "unexpected CBOR type"
  | invalidCbor => "invalid CBOR"
  | missingParameter => "missing parameter"
  | limitExceeded => "limit exceeded"
  | unsupportedExtension => "unsupported extension"
  | credentialExcluded => "credential excluded"
  | processing => "processing"
  | invalidCredential => "invalid credential"
  | userActionPending => "user action pending"
  | operationPending => "operation pending"
  | noOperations => "no operations"
  | unsupportedAlgorithm => "unsupported algorithm"
  | operationDenied => "operation denied"
  | keyStoreFull => "key store full"
  | noOperationPending => "no operation pending"
  | unsupportedOption => "unsupported option"
  | invalidOption => "invalid option"
  | keepaliveCancel => "cancelled by keepalive"
  | noCredentials => "no credentials"
  | userActionTimeout => "user action timed out"
  | notAllowed => "not allowed"
  | pinInvalid => "PIN invalid"
  | pinBlocked => "PIN blocked"
  | pinAuthInvalid => "PIN auth invalid"
  | pinAuthBlocked => "PIN auth blocked"
  | pinNotSet => "PIN not set"
  | pinRequired => "PIN required"
  | pinPolicyViolation => "PIN policy violation"
  | pinTokenExpired => "PIN token expired"
  | requestTooLarge => "request too large"
  | actionTimeout => "action timed out"
  | upRequired => "user presence required"
  | other => "other error"
  | unknown code => "unknown CTAP status 0x" ++ Bytes.toHex [code]

/-- The statuses that have a name. -/
def named : List Status := [
  success, invalidCommand, invalidParameter, invalidLength, invalidSeq, timeout, channelBusy, lockRequired,
  invalidChannel, cborUnexpectedType, invalidCbor, missingParameter, limitExceeded, unsupportedExtension,
  credentialExcluded, processing, invalidCredential, userActionPending, operationPending, noOperations,
  unsupportedAlgorithm, operationDenied, keyStoreFull, noOperationPending, unsupportedOption, invalidOption,
  keepaliveCancel, noCredentials, userActionTimeout, notAllowed, pinInvalid, pinBlocked, pinAuthInvalid,
  pinAuthBlocked, pinNotSet, pinRequired, pinPolicyViolation, pinTokenExpired, requestTooLarge, actionTimeout,
  upRequired, other]

/-- The status of a byte. -/
def ofByte (code : UInt8) : Status :=
  (named.find? (·.toByte = code)).getD (unknown code)

theorem toByte_ofByte (code : UInt8) : (ofByte code).toByte = code := by
  unfold ofByte
  cases h : named.find? (·.toByte = code) with
  | none => rfl
  | some s => simpa using List.find?_some h

end Status

end SecurityKey.Ctap
