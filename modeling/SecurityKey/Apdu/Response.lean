import SecurityKey.Link.Error

/-!
# Response APDUs

The answer of a card: data and a status word of two bytes.
-/

namespace SecurityKey.Apdu

/-- What a card says about a command. -/
structure StatusWord where
  sw1 : UInt8
  sw2 : UInt8
  deriving DecidableEq, Repr

namespace StatusWord

/-- The command was executed. -/
def success : StatusWord := ⟨0x90, 0x00⟩

/-- The selected application is in its termination state. -/
def terminationState : StatusWord := ⟨0x62, 0x85⟩

/-- The length of the command is wrong. -/
def wrongLength : StatusWord := ⟨0x67, 0x00⟩

/-- A secret has to be verified first. -/
def securityStatusNotSatisfied : StatusWord := ⟨0x69, 0x82⟩

/-- The secret cannot be tried any more. -/
def authMethodBlocked : StatusWord := ⟨0x69, 0x83⟩

/-- The state of the card forbids the command. -/
def conditionsNotSatisfied : StatusWord := ⟨0x69, 0x85⟩

/-- The data of the command are wrong. -/
def wrongData : StatusWord := ⟨0x6a, 0x80⟩

/-- There is no such file or application. -/
def fileNotFound : StatusWord := ⟨0x6a, 0x82⟩

/-- The instruction is not known. -/
def insNotSupported : StatusWord := ⟨0x6d, 0x00⟩

/-- The class is not known. -/
def claNotSupported : StatusWord := ⟨0x6e, 0x00⟩

/-- The two bytes as one number. -/
def toUInt16 (sw : StatusWord) : UInt16 := sw.sw1.toUInt16 <<< 8 ||| sw.sw2.toUInt16

/-- The status word of a number. -/
def ofUInt16 (n : UInt16) : StatusWord := ⟨(n >>> 8).toUInt8, n.toUInt8⟩

/-- Whether the command was executed. -/
def isSuccess (sw : StatusWord) : Bool := sw = success

/-- How many more bytes the card has ready, zero for many. -/
def remaining? (sw : StatusWord) : Option UInt8 := if sw.sw1 = 0x61 then some sw.sw2 else none

/-- The length of answer the card asks to be asked for. -/
def exactLength? (sw : StatusWord) : Option UInt8 :=
  if sw.sw1 = 0x6c ∧ sw.sw2 ≠ 0 then some sw.sw2 else none

/-- How many attempts are left. -/
def retries? (sw : StatusWord) : Option UInt8 :=
  if sw.sw1 = 0x63 ∧ sw.sw2 &&& 0xf0 = 0xc0 then some (sw.sw2 &&& 0x0f) else none

/-- What a status word means. -/
def description (sw : StatusWord) : String :=
  if sw = success then "Success"
  else if sw.sw1 = 0x61 then "More data available"
  else if sw = terminationState then "Selected file in termination state"
  else if sw.retries?.isSome then "Verification failed, counter value"
  else if sw = wrongLength then "Wrong length"
  else if sw = securityStatusNotSatisfied then "Security status not satisfied"
  else if sw = authMethodBlocked then "Authentication method blocked"
  else if sw = conditionsNotSatisfied then "Conditions of use not satisfied"
  else if sw = wrongData then "Incorrect parameters in the data field"
  else if sw = fileNotFound then "File or application not found"
  else if sw.sw1 = 0x6c then "Wrong Le field"
  else if sw = insNotSupported then "Instruction not supported"
  else if sw = claNotSupported then "Class not supported"
  else "Unknown status"

/-- The number and the meaning of a status word. -/
def message (sw : StatusWord) : String :=
  (Bytes.toHex [sw.sw1, sw.sw2]).toUpper ++ " (" ++ sw.description ++ ")"

end StatusWord

/-- The answer of a card. -/
structure Response where
  data : Bytes
  sw : StatusWord
  deriving DecidableEq

namespace Response

/-- A status word alone. -/
def status (sw : StatusWord) : Response := ⟨[], sw⟩

/-- Data of a command that was executed. -/
def ok (data : Bytes) : Response := ⟨data, .success⟩

/-- Whether the command was executed. -/
def isSuccess (r : Response) : Bool := r.sw.isSuccess

/-- The answer of its bytes: the last two are the status word. -/
def ofBytes (bytes : Bytes) : Except Link.Error Response :=
  let n := bytes.length - 2
  match bytes.drop n with
  | [sw1, sw2] => .ok ⟨bytes.take n, ⟨sw1, sw2⟩⟩
  | _ => .error (.malformedResponse ("response APDU needs at least 2 bytes, got " ++ toString bytes.length))

/-- The bytes of an answer. -/
def toBytes (r : Response) : Bytes := r.data ++ [r.sw.sw1, r.sw.sw2]

end Response

end SecurityKey.Apdu
