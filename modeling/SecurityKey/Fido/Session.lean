import SecurityKey.Crypto.Secret
import SecurityKey.Ctap.Info
import SecurityKey.Exchange

/-!
# Sessions with a FIDO authenticator

A session holds what the host knows about the authenticator behind a card: whether a FIDO application is selected,
its version, what it told about itself (then it speaks CTAP2) and a PIN token.

- `Session.connect` selects the application and asks for information; where it fails after the card was connected,
  it releases the card;
- `Session.release` forgets the token and the information;
- `Session.ctap2Request` sends one CTAP2 message.
-/

namespace SecurityKey.Fido

/-! ## Diagnostics -/

/-- What is told to diagnostics. -/
inductive Event
  | breadcrumb (text : String)
  /-- A property of the session is known. -/
  | tag (key value : String)
  | captured (e : Error)
  deriving DecidableEq

/-! ## Configuration -/

/-- How to talk to authenticators. -/
structure Config where
  /-- Whether to speak U2F even where CTAP2 is possible. -/
  forceCtap1 : Bool
  /-- Whether to select an application, or only to ask for the U2F version. -/
  selectApplet : Bool
  /-- How much data a link of a chain may carry. -/
  chunkSize : Nat
  /-- How long to wait before the user's presence is tested again, in milliseconds. -/
  presenceDelay : Nat
  /-- The key pairs that the host makes up, one per agreement. -/
  freshKey : Nat → Crypto.KeyPair

/-- The usual configuration. -/
def Config.standard (freshKey : Nat → Crypto.KeyPair) : Config := ⟨false, true, 255, 250, freshKey⟩

/-- The configuration with another size of links, as far as links can have it. -/
def Config.withChunkSize (c : Config) (n : Nat) : Config := { c with chunkSize := Apdu.Command.linkSize n }

/-! ## Sessions -/

/-- What the host knows about an authenticator, together with the card. -/
structure Session (σ : Type) where
  card : σ
  /-- Whether a connection was completed and not released since. -/
  connected : Bool
  version : Option String
  /-- What the authenticator told about itself, if it speaks CTAP2. -/
  info : Option Ctap.Info
  pinToken : Option Crypto.PinToken
  /-- How many key pairs were made up. -/
  keysMade : Nat
  /-- What was told to diagnostics, in order. -/
  events : List Event

namespace Session

variable {σ : Type}

/-- The session before the first connection. -/
def new (card : σ) : Session σ := ⟨card, false, none, none, none, 0, []⟩

/-- Whether the authenticator speaks CTAP2. -/
def isCtap2 (s : Session σ) : Bool := s.info.isSome

/-- The session without its token. -/
def clearPinToken (s : Session σ) : Session σ := { s with pinToken := none }

/-- The session after something was told to diagnostics. -/
def tell (e : Event) (s : Session σ) : Session σ := { s with events := s.events ++ [e] }

variable (card : Card σ) (config : Config)

/-- Whether a connection was completed and the card has not lost it. -/
def isConnected (s : Session σ) : Bool := s.connected && card.isConnected s.card

/-- The session after its end. The version stays known. -/
def release (s : Session σ) : Session σ :=
  { s with pinToken := none, connected := false, info := none, card := card.release s.card }

/-- An action of the card as one of the session. -/
def onCard {ε α : Type} (a : Action σ ε α) : Action (Session σ) ε α :=
  Action.zoom Session.card (fun c s => { s with card := c }) a

/-! ## Commands -/

/-- One APDU and its whole answer. -/
def transmit (c : Apdu.Command) : Action (Session σ) Error Apdu.Response :=
  onCard (Exchange.transmit card c config.chunkSize)

/-- One APDU and its answer, which has to be successful. -/
def communicate (c : Apdu.Command) : Action (Session σ) Error Apdu.Response := do
  let r ← transmit card config c
  if r.isSuccess then return r else throw (.ofFidoStatus r.sw)

/-- The APDU that carries a CTAP2 message. -/
def ctap2Apdu (request : Bytes) : Apdu.Command :=
  ((Apdu.Command.header 0x80 0x10 0x00 0x00).withData request).withNe 65536

/-- One CTAP2 message and the item of its answer, if there is one. -/
def ctap2Request (request : Bytes) : Action (Session σ) Error (Option Cbor.Value) := do
  let r ← communicate card config (ctap2Apdu request)
  Action.ofExcept Error.ofCtap (Ctap.parseResponse r.data)

/-- One CTAP2 message and the item of its answer. -/
def ctap2RequestBody (request : Bytes) : Action (Session σ) Error Cbor.Value := do
  match ← ctap2Request card config request with
  | some v => return v
  | none => throw (.protocol "missing CTAP2 response body")

/-! ## Connecting -/

/-- The identifiers under which FIDO applications are found, in the order they are tried. -/
def aids : List Bytes := [
  [0xa0, 0x00, 0x00, 0x06, 0x47, 0x2f, 0x00, 0x01],
  [0xa0, 0x00, 0x00, 0x06, 0x47, 0x2f, 0x00, 0x01, 0x00],
  [0xa0, 0x00, 0x00, 0x05, 0x27, 0x10, 0x02]]

/-- The versions an application may have. -/
def versions : List String := ["U2F_V2", "FIDO_2_0"]

/-- The version an application answered with. -/
def checkVersion (data : Bytes) : Except Error String :=
  match versions.find? fun v => Bytes.ofString v = data with
  | some v => .ok v
  | none => .error (.protocol ("applet replied with unexpected version " ++ data.toHex))

/-- The version of the first application that is found. -/
def selectApplet : List Bytes → Action (Session σ) Error String
  | [] => throw (.unsupported "no FIDO U2F or CTAP2 applet on the device")
  | aid :: rest => do
    let r ← transmit card config (.select aid)
    if r.sw = .fileNotFound then selectApplet rest
    else if r.isSuccess then
      let v ← Action.ofExcept id (checkVersion r.data)
      modify (tell (.breadcrumb "selected FIDO applet"))
      return v
    else throw (.ofFidoStatus r.sw)

/-- The version of the application, selected or asked for. -/
def readVersion : Action (Session σ) Error String := do
  if config.selectApplet then selectApplet card config aids
  else
    let r ← communicate card config ((Apdu.Command.header 0x00 0x03 0x00 0x00).withNe 256)
    Action.ofExcept id (checkVersion r.data)

/-- What the authenticator tells about itself. No usable answer means that it speaks U2F only, unless the device is
gone. -/
def readInfo : Action (Session σ) Error Unit := do
  match ← Action.observe (ctap2Request card config (Ctap.request .getInfo none)) with
  | .ok none => return
  | .ok (some body) =>
    let info ← Action.ofExcept Error.ofCbor (Ctap.Info.ofValue body)
    modify (tell (.breadcrumb "authenticatorGetInfo succeeded, using CTAP2"))
    modify fun s => { s with info := some info }
  | .error e => if e.isDisconnect then throw e else return

/-- The dialogue with a card that is connected. -/
def greet : Action (Session σ) Error Unit := do
  let v ← readVersion card config
  modify (tell (.tag "fido_version" v))
  modify fun s => { s with version := some v, info := none }
  if config.forceCtap1 then return
  readInfo card config

/-- A connection, unless there is one. -/
def connect : Action (Session σ) Error Unit := do
  let s ← get
  if s.isConnected card then return
  if !card.isConnected s.card then onCard (card.connect.adapt Error.ofLink)
  match ← Action.observe (greet card config) with
  | .ok () => modify fun s => { s with connected := true }
  | .error e =>
    modify (release card)
    throw e

end Session

end SecurityKey.Fido
