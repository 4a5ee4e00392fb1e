import SecurityKey.Cbor.Error
import SecurityKey.Cbor.Float
import SecurityKey.Cbor.Value

/-!
# Reading CBOR

A reader takes one thing off the front of its input and returns it with the rest. Nesting is bounded by a budget of
levels: an item takes one level while it is read, an array or a map one more for its elements.

An indefinite-length string leaves the byte that ends it in the input; an array or a map consumes that byte.

- `readItem` reads one item within a budget;
- `decodePrefix` reads the item at the front, `decode` refuses anything behind it.
-/

namespace SecurityKey.Cbor

/-- Takes one `α` off the front of the input. -/
abbrev Reader (α : Type) := Bytes → Option (α × Bytes)

/-- The byte that ends an indefinite-length item. -/
def breakByte : UInt8 := 0xff

/-- How many levels a decoded item may take. -/
def maxLevels : Nat := 32

/-! ## Headers and strings -/

/-- The number in the next `width` bytes. -/
def readNat (width : Nat) : Reader Nat := fun input =>
  (Bytes.split? width input).map fun (digits, rest) => (digits.toNat, rest)

/-- The argument that the low five bits of a header announce. -/
def readArgument (info : Nat) : Reader Nat := fun input =>
  if info < 24 then some (info, input)
  else if info = 24 then readNat 1 input
  else if info = 25 then readNat 2 input
  else if info = 26 then readNat 4 input
  else if info = 27 then readNat 8 input
  else none

/-- A string of announced length. -/
def readString (info : Nat) : Reader Bytes := fun input => do
  let (length, input) ← readArgument info input
  Bytes.split? length input

/-! ## Sequences -/

variable {α : Type}

/-- A given number of elements. -/
def readMany (read : Reader α) : Nat → Reader (List α)
  | 0, input => some ([], input)
  | n + 1, input => do
    let (x, input) ← read input
    let (xs, input) ← readMany read n input
    some (x :: xs, input)

/-- Elements up to a break byte, which stays in the input. The first argument bounds the number of elements. -/
def readUntilBreak (read : Reader α) : Nat → Reader (List α)
  | _, [] => none
  | 0, _ :: _ => none
  | n + 1, b :: input =>
    if b = breakByte then some ([], b :: input)
    else do
      let (x, input) ← read (b :: input)
      let (xs, input) ← readUntilBreak read n input
      some (x :: xs, input)

/-- The elements of an array or of a map: as many as its header announces, or up to a break byte. -/
def readElements (read : Reader α) (info : Nat) : Reader (List α) := fun input =>
  if info = 31 then do
    let (xs, input) ← readUntilBreak read (input.length + 1) input
    some (xs, input.drop 1)
  else do
    let (n, input) ← readArgument info input
    readMany read n input

/-- The chunks of an indefinite-length string, joined. A chunk takes one level. It is a nested string that begins
with the same byte, or a byte that gives its length once the bits of `mask` are cleared. -/
def readChunks (start mask : UInt8) : (levels : Nat) → Reader Bytes
  | 0, input => if input.head? = some breakByte then some ([], input) else none
  | levels + 1, input => do
    let readChunk : Reader Bytes := fun
      | [] => none
      | b :: input =>
        if b = start then readChunks start mask levels input else readString (b &&& ~~~mask).toNat input
    let (chunks, input) ← readUntilBreak readChunk (input.length + 1) input
    some (chunks.flatten, input)

/-! ## Items -/

/-- A text whose bytes have been read. -/
def textItem (b : Bytes) : Option Value :=
  (Bytes.toString? b).map .text

/-- A tagged item; a byte string under a bignum tag is a bignum. -/
def taggedItem (number : Nat) (content : Value) : Value :=
  match number, content with
  | 2, .bytes magnitude => .bignum false magnitude
  | 3, .bytes magnitude => .bignum true magnitude
  | _, _ => .tag (.ofNat number) content

/-- A float of a given format. -/
def readFloat (f : Format) (width : Nat) : Reader Value := fun input =>
  (readNat width input).map fun (bits, rest) => (.float (.ofNat (f.widen bits)), rest)

/-- The items of the last major type: truth values, null and its undefined twin, floats. -/
def readSimple (info : Nat) : Reader Value := fun input =>
  match info with
  | 20 => some (.bool false, input)
  | 21 => some (.bool true, input)
  | 22 => some (.null, input)
  | 23 => some (.null, input)
  | 25 => readFloat .half 2 input
  | 26 => readFloat .single 4 input
  | 27 => (readNat 8 input).map fun (bits, rest) => (.float (.ofNat bits), rest)
  | _ => none

/-- A key and its value. -/
def readEntry (read : Reader α) : Reader (α × α) := fun input => do
  let (k, input) ← read input
  let (v, input) ← read input
  some ((k, v), input)

/-- One item within a budget of levels. -/
def readItem : (levels : Nat) → Reader Value
  | 0, _ => none
  | _ + 1, [] => none
  | levels + 1, first :: input =>
    let info := first.toNat % 32
    match first.toNat / 32 with
    | 0 => do
      let (n, input) ← readArgument info input
      some (.unsigned (.ofNat n), input)
    | 1 => do
      let (n, input) ← readArgument info input
      some (.negative (.ofNat n), input)
    | 2 => do
      let (b, input) ← if info = 31 then readChunks first 0x40 levels input else readString info input
      some (.bytes b, input)
    | 3 => do
      let (b, input) ← if info = 31 then readChunks first 0x60 levels input else readString info input
      let v ← textItem b
      some (v, input)
    | 4 =>
      match levels with
      | 0 => none
      | levels + 1 => do
        let (items, input) ← readElements (readItem levels) info input
        some (.array items, input)
    | 5 =>
      match levels with
      | 0 => none
      | levels + 1 => do
        let (entries, input) ← readElements (readEntry (readItem levels)) info input
        some (.map entries, input)
    | 6 => do
      let (number, input) ← readArgument info input
      let (content, input) ← readItem levels input
      some (taggedItem number content, input)
    | _ => readSimple info input

/-- The item at the front of the input and how many bytes it takes. -/
def decodePrefix (input : Bytes) : Except Error (Value × Nat) :=
  match readItem maxLevels input with
  | some (v, rest) => .ok (v, input.length - rest.length)
  | none => .error .malformed

/-- The item that is the whole input. -/
def decode (input : Bytes) : Except Error Value := do
  let (v, consumed) ← decodePrefix input
  if consumed = input.length then .ok v else .error (.trailingBytes (input.length - consumed))

end SecurityKey.Cbor
