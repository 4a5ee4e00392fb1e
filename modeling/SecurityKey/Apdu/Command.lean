import SecurityKey.Chunks
import SecurityKey.Link.Error

/-!
# Command APDUs

A command is a header of four bytes, data and the length of the expected answer. It has a short form, with one byte
per length, and an extended form.

- `Command.encode` writes a form and fails exactly when a length does not fit it; `Command.decode` reads either;
- `Command.chain` cuts the data into the links of a chain; all links but the last carry the chaining bit.
-/

namespace SecurityKey.Apdu

/-- How lengths are written. -/
inductive Form
  | short
  | extended
  deriving DecidableEq, Repr

/-- The most data a form can announce. -/
def Form.maxData : Form → Nat
  | short => 255
  | extended => 65535

/-- The longest answer a form can ask for. -/
def Form.maxAnswer : Form → Nat
  | short => 256
  | extended => 65536

/-- A command for a card. -/
structure Command where
  cla : UInt8
  ins : UInt8
  p1 : UInt8
  p2 : UInt8
  data : Bytes
  /-- How long the answer may be. -/
  ne : Nat
  ne_le : ne ≤ 65536 := by decide
  deriving DecidableEq

namespace Command

/-- The bit of the class byte that says that more links follow. -/
def chainingBit : UInt8 := 0x10

/-- A command without data that expects no answer. -/
def header (cla ins p1 p2 : UInt8) : Command := { cla, ins, p1, p2, data := [], ne := 0 }

/-- The command with the given data. -/
def withData (c : Command) (data : Bytes) : Command := { c with data }

/-- The command with the given length of answer, as far as a command can ask for it. -/
def withNe (c : Command) (ne : Nat) : Command := { c with ne := min ne 65536, ne_le := by omega }

/-- The selection of an application. -/
def select (aid : Bytes) : Command := ((header 0x00 0xa4 0x04 0x00).withData aid).withNe 256

/-- The request for more of an answer; zero stands for 256 bytes. -/
def getResponse (available : UInt8) : Command :=
  (header 0x00 0xc0 0x00 0x00).withNe (if available = 0 then 256 else available.toNat)

/-- Whether the lengths fit a form. -/
def fits (c : Command) (f : Form) : Bool := c.data.length ≤ f.maxData && c.ne ≤ f.maxAnswer

/-- The form in which to send the command. -/
def formFor (c : Command) (extendedSupported : Bool) : Form :=
  if extendedSupported && !c.fits .short then .extended else .short

/-- The command asking for no more than the short form can. -/
def toShort (c : Command) : Command := { c with ne := min c.ne 256, ne_le := by omega }

/-! ## Encoding -/

/-- The four bytes every command begins with. -/
def headerBytes (c : Command) : Bytes := [c.cla, c.ins, c.p1, c.p2]

/-- The data and lengths in the short form. -/
def shortBody (c : Command) : Bytes :=
  (if c.data.isEmpty then [] else UInt8.ofNat c.data.length :: c.data) ++
    if c.ne = 0 then [] else [UInt8.ofNat c.ne]

/-- The data and lengths in the extended form. -/
def extendedBody (c : Command) : Bytes :=
  (if c.data.isEmpty then [] else 0x00 :: Bytes.ofNat 2 c.data.length ++ c.data) ++
    if c.ne = 0 then [] else (if c.data.isEmpty then [0x00] else []) ++ Bytes.ofNat 2 c.ne

/-- The bytes of a command in a form. The data are checked before the length of the answer. -/
def encode (c : Command) (f : Form) : Except Link.Error Bytes :=
  if f.maxData < c.data.length then .error (.dataTooLong c.data.length f.maxData)
  else if f.maxAnswer < c.ne then .error (.dataTooLong c.ne f.maxAnswer)
  else .ok (c.headerBytes ++ match f with
    | .short => c.shortBody
    | .extended => c.extendedBody)

/-- The bytes of a command in the form chosen for it. -/
def toBytes (c : Command) (extendedSupported : Bool) : Except Link.Error Bytes :=
  c.encode (c.formFor extendedSupported)

/-! ## Decoding -/

/-- The length of answer that one byte asks for. -/
def shortNe (le : UInt8) : Nat := if le = 0 then 256 else le.toNat

/-- The length of answer that two bytes ask for. -/
def extendedNe (hi lo : UInt8) : Nat :=
  let n := Bytes.toNat [hi, lo]
  if n = 0 then 65536 else n

/-- Data of an announced length, alone or followed by a length of answer. -/
def decodeData (c : Command) (length : Nat) (rest : Bytes) (f : Form) : Option (Command × Form) :=
  match f, rest.drop length with
  | _, [] => if rest.length = length then some (c.withData rest, f) else none
  | .short, [le] => some ((c.withData (rest.take length)).withNe (shortNe le), f)
  | .extended, [hi, lo] => some ((c.withData (rest.take length)).withNe (extendedNe hi lo), f)
  | _, _ => none

/-- Data and lengths behind a header. -/
def decodeBody (c : Command) : Bytes → Option (Command × Form)
  | [] => some (c, .short)
  | [le] => some (c.withNe (shortNe le), .short)
  | 0x00 :: hi :: lo :: rest =>
    if rest.isEmpty then some (c.withNe (extendedNe hi lo), .extended)
    else
      let length := Bytes.toNat [hi, lo]
      if length = 0 then none else decodeData c length rest .extended
  | 0x00 :: _ => none
  | length :: rest => decodeData c length.toNat rest .short

/-- The command of its bytes and the form they are in. -/
def decode (bytes : Bytes) : Except Link.Error (Command × Form) :=
  let decoded := match bytes with
    | cla :: ins :: p1 :: p2 :: body => decodeBody (header cla ins p1 p2) body
    | _ => none
  match decoded with
  | some r => .ok r
  | none => .error (.malformedResponse ("invalid command APDU of " ++ toString bytes.length ++ " bytes"))

/-! ## Chaining -/

/-- The links that carry the given pieces of data. -/
def links (c : Command) : List Bytes → List Command
  | [] => []
  | [data] => [c.toShort.withData data]
  | data :: rest =>
    { c with cla := c.cla ||| chainingBit, data, ne := 0, ne_le := by decide } :: links c rest

/-- How much data a link may carry. -/
def linkSize (size : Nat) : Nat := max 1 (min size 255)

/-- The chain that carries the command with at most `size` bytes of data per link. -/
def chain (c : Command) (size : Nat) : List Command :=
  if c.data.length ≤ linkSize size then [c.toShort] else c.links (chunks (linkSize size) c.data)

end Command

end SecurityKey.Apdu
