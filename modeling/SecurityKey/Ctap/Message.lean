import SecurityKey.Cbor.Decode
import SecurityKey.Cbor.Encode
import SecurityKey.Crypto.KeyPair
import SecurityKey.Ctap.Status

/-!
# CTAP2 messages

A request is a command byte and an optional item; an answer is a status byte and an optional item.
-/

namespace SecurityKey.Ctap

open Cbor (Value)

/-- Why an answer of an authenticator is refused, or a request could not be made. -/
inductive Error
  /-- The authenticator answered with a status other than success. -/
  | status (code : Status)
  /-- An item is malformed or has the wrong shape. -/
  | cbor (e : Cbor.Error)
  /-- A key or a block is refused. -/
  | crypto (e : Crypto.Error)
  | invalidResponse (reason : String)
  deriving DecidableEq, Repr

/-- The text of an error. -/
def Error.message : Error → String
  | .status code => "authenticator returned " ++ code.message
  | .cbor e => e.message
  | .crypto e => e.message
  | .invalidResponse reason => "invalid response: " ++ reason

/-- A check of items as a check of messages. -/
def ofCbor {α : Type} (r : Except Cbor.Error α) : Except Error α := r.mapError .cbor

/-- The commands of CTAP2. -/
inductive Command
  | makeCredential
  | getAssertion
  | getInfo
  | clientPin
  | reset
  | getNextAssertion
  deriving DecidableEq, Repr

/-- The byte of a command. -/
def Command.toByte : Command → UInt8
  | makeCredential => 0x01
  | getAssertion => 0x02
  | getInfo => 0x04
  | clientPin => 0x06
  | reset => 0x07
  | getNextAssertion => 0x08

/-- The command of a byte. -/
def Command.ofByte? (b : UInt8) : Option Command :=
  [makeCredential, getAssertion, getInfo, clientPin, reset, getNextAssertion].find? (·.toByte = b)

/-- The encoded item, if there is one. -/
def encodeBody (body : Option Value) : Bytes := (body.map Value.encode).getD []

/-- A request. -/
def request (command : Command) (parameters : Option Value) : Bytes :=
  command.toByte :: encodeBody parameters

/-- A successful answer. -/
def response (body : Option Value) : Bytes :=
  Status.success.toByte :: encodeBody body

/-- The item of an answer, if it has one. -/
def parseResponse (answer : Bytes) : Except Error (Option Value) :=
  match answer with
  | [] => .error (.invalidResponse "empty CTAP2 response")
  | code :: body =>
    match Status.ofByte code with
    | .success => if body.isEmpty then .ok none else ofCbor (some <$> Cbor.decode body)
    | status => .error (.status status)

/-- The item of an answer that has to have one. -/
def parseResponseBody (answer : Bytes) : Except Error Value := do
  match ← parseResponse answer with
  | some v => return v
  | none => .error (.invalidResponse "missing response body")

end SecurityKey.Ctap
