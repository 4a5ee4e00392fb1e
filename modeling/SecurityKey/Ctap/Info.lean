import SecurityKey.Cbor.Fields

/-!
# What an authenticator tells about itself

`Info.ofValue` reads the answer to the information command and `Info.toValue` writes it. Options and list entries of
an unexpected kind are passed over.
-/

namespace SecurityKey.Ctap

open Cbor (Value Fields)

/-- Options of an authenticator; an absent one is not supported or keeps its default. -/
structure Options where
  /-- Attached to its platform. -/
  plat : Option Bool
  /-- Stores credentials itself. -/
  rk : Option Bool
  /-- Knows PINs, and whether one is set. -/
  clientPin : Option Bool
  /-- Tests user presence. -/
  up : Option Bool
  /-- Verifies users itself. -/
  uv : Option Bool
  deriving DecidableEq, Repr

/-- What an authenticator tells about itself. -/
structure Info where
  versions : List String
  extensions : List String
  /-- Its model. -/
  aaguid : Bytes.Sized 16
  options : Options
  maxMsgSize : Option UInt64
  pinProtocols : List UInt64
  deriving DecidableEq

namespace Options

/-- No option. -/
def none : Options := ⟨.none, .none, .none, .none, .none⟩

/-- The options of a map form. -/
def ofValue (v : Value) : Options :=
  let flag (name : String) := (v.findText? name).bind Value.toBool?
  ⟨flag "plat", flag "rk", flag "clientPin", flag "up", flag "uv"⟩

/-- The map form of the options that are present, if any is. -/
def toValue? (o : Options) : Option Value :=
  let fields := [("plat", o.plat), ("rk", o.rk), ("clientPin", o.clientPin), ("up", o.up), ("uv", o.uv)]
  if fields.all (·.2.isNone) then .none
  else some (.textRecord (fields.map fun f => (f.1, f.2.map .bool)))

end Options

namespace Info

/-- The text strings of an array. -/
def texts (v : Value) : List String :=
  (v.toArray?.getD []).filterMap Value.toText?

/-- The information of a map form. -/
def ofValue (v : Value) : Except Cbor.Error Info := do
  let fields ← Fields.ofValue v
  let versions := texts (← fields.get 1)
  let extensions := ((fields.get? 2).map texts).getD []
  let aaguid ← Fields.kind 3 "16-byte AAGUID" (Bytes.sized? 16 (← fields.bytes 3))
  let options := ((fields.get? 4).map Options.ofValue).getD .none
  let pinProtocols := ((← fields.array? 6).getD []).filterMap Value.toUnsigned?
  return ⟨versions, extensions, aaguid, options, ← fields.unsigned? 5, pinProtocols⟩

/-- A list as an array, absent when it is empty. -/
def listValue? (items : List Value) : Option Value :=
  if items.isEmpty then none else some (.array items)

/-- The map form of the information. -/
def toValue (i : Info) : Value :=
  .record [(1, some (.texts i.versions)), (2, listValue? (i.extensions.map .text)),
    (3, some (.bytes i.aaguid.val)), (4, i.options.toValue?), (5, i.maxMsgSize.map .unsigned),
    (6, listValue? (i.pinProtocols.map .unsigned))]

/-- Whether the authenticator knows PINs. -/
def supportsClientPin (i : Info) : Bool := i.options.clientPin.isSome

/-- Whether a PIN is set. -/
def isPinSet (i : Info) : Bool := i.options.clientPin == some true

/-- Whether the authenticator speaks a PIN protocol. -/
def supportsPinProtocol (i : Info) (n : UInt64) : Bool := i.pinProtocols.contains n

/-- Whether the authenticator speaks a protocol version. -/
def supportsVersion (i : Info) (version : String) : Bool := i.versions.contains version

end Info

end SecurityKey.Ctap
