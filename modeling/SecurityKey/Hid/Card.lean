import SecurityKey.Hid.Link

/-!
# A HID device as a card

CTAP2 commands travel as the data of their own kind of message and always come back with a successful status word.
All other commands travel as APDUs in extended form.
-/

namespace SecurityKey.Hid

variable {δ : Type}

/-- Whether an APDU carries a CTAP2 message. -/
def carriesCtap2 (c : Apdu.Command) : Bool := c.cla = 0x80 && c.ins = 0x10

/-- One command over an open link. -/
def transceive (device : Device δ) (config : Config) (c : Apdu.Command) :
    Action (Link δ) SecurityKey.Link.Error Apdu.Response := do
  if !(← get).isOpen then throw .notConnected
  if carriesCtap2 c then
    return .ok (← Link.transact device config .cbor c.data)
  match c.encode .extended with
  | .error e => throw e
  | .ok bytes =>
    match Apdu.Response.ofBytes (← Link.transact device config .msg bytes) with
    | .error e => throw e
    | .ok r => return r

/-- The card behind a link. -/
def card (device : Device δ) (config : Config) : Card (Link δ) where
  connect := do let _ ← Link.handshake device config
  transceive := transceive device config
  release := Link.release
  isConnected := Link.isOpen
  supportsExtended _ := true

end SecurityKey.Hid
