import SecurityKey.Bytes

/-!
# CBOR data items

`Value` is the tree of one data item. Integers have three forms: `unsigned`, `negative` (which holds the argument
`n` of the number `-1 - n`) and `bignum`.

- `Value.ofInt` chooses the form of a number, `Value.toInt128?` reads any of the forms back;
- `Value.find?` and `Value.findText?` look an entry up by the number or the text of its key; the first entry wins.
-/

namespace SecurityKey.Cbor

/-- A CBOR data item. A float is held as the 64 bits of its double. -/
inductive Value
  /-- A number below `2 ^ 64`. -/
  | unsigned (n : UInt64)
  /-- The number `-1 - n`. -/
  | negative (n : UInt64)
  /-- The number of the magnitude `m`, or `-1 - m`. -/
  | bignum (isNegative : Bool) (magnitude : Bytes)
  | bytes (b : Bytes)
  | text (s : String)
  | array (items : List Value)
  /-- A list of entries, each a key and its value. -/
  | map (entries : List (Value × Value))
  | tag (number : UInt64) (content : Value)
  | float (bits : UInt64)
  | bool (b : Bool)
  | null
  deriving Repr, Inhabited

namespace Value

/-! ## Integers -/

/-- The item of a number: a bignum only when 64 bits do not hold the argument. -/
def ofInt (n : Int) : Value :=
  match n with
  | .ofNat m => if m < 0x10000000000000000 then .unsigned (.ofNat m) else .bignum false (Bytes.minimal m)
  | .negSucc m => if m < 0x10000000000000000 then .negative (.ofNat m) else .bignum true (Bytes.minimal m)

/-- The item of a natural number. -/
def ofNat (n : Nat) : Value :=
  ofInt n

/-- The number an item denotes, when it is an integer of at most 128 bits, sign included. -/
def toInt128? : Value → Option Int
  | .unsigned n => some n.toNat
  | .negative n => some (-1 - n.toNat)
  | .bignum isNegative magnitude =>
    let digits := Bytes.stripZeros magnitude
    let m := digits.toNat
    if digits.length ≤ 16 ∧ m < 0x80000000000000000000000000000000 then some (if isNegative then -1 - m else m)
    else none
  | _ => none

/-- The number an item denotes, when it is an integer of at most 64 bits, sign included. -/
def toInt64? (v : Value) : Option Int :=
  v.toInt128?.filter fun n => -0x8000000000000000 ≤ n ∧ n < 0x8000000000000000

/-! ## The other kinds -/

/-- The number of an unsigned item. -/
def toUnsigned? : Value → Option UInt64
  | .unsigned n => some n
  | _ => none

/-- The contents of a byte string. -/
def toBytes? : Value → Option Bytes
  | .bytes b => some b
  | _ => none

/-- The contents of a text string. -/
def toText? : Value → Option String
  | .text s => some s
  | _ => none

/-- The items of an array. -/
def toArray? : Value → Option (List Value)
  | .array items => some items
  | _ => none

/-- The entries of a map. -/
def toMap? : Value → Option (List (Value × Value))
  | .map entries => some entries
  | _ => none

/-- The truth value of a boolean item. -/
def toBool? : Value → Option Bool
  | .bool b => some b
  | _ => none

/-- The bits of a float. -/
def toFloat? : Value → Option UInt64
  | .float bits => some bits
  | _ => none

/-- Whether the item is null. -/
def isNull : Value → Bool
  | .null => true
  | _ => false

/-! ## Looking up entries -/

/-- The value of the first entry whose key denotes the number, in any of the integer forms. -/
def lookup (entries : List (Value × Value)) (key : Int) : Option Value :=
  (entries.find? fun e => e.1.toInt64? == some key).map (·.2)

/-- The value of the first entry whose key is the text. -/
def lookupText (entries : List (Value × Value)) (key : String) : Option Value :=
  (entries.find? fun e => e.1.toText? == some key).map (·.2)

/-- The value under a numeric key, when the item is a map that has one. -/
def find? (v : Value) (key : Int) : Option Value :=
  v.toMap?.bind (lookup · key)

/-- The value under a text key, when the item is a map that has one. -/
def findText? (v : Value) (key : String) : Option Value :=
  v.toMap?.bind (lookupText · key)

/-! ## Building maps -/

/-- The entries that are present. -/
def present (entries : List (Value × Option Value)) : List (Value × Value) :=
  entries.filterMap fun e => e.2.map (e.1, ·)

/-- A map with numeric keys, without the entries that are absent. -/
def record (fields : List (Int × Option Value)) : Value :=
  .map (present (fields.map fun f => (ofInt f.1, f.2)))

/-- A map with text keys, without the entries that are absent. -/
def textRecord (fields : List (String × Option Value)) : Value :=
  .map (present (fields.map fun f => (.text f.1, f.2)))

/-- An array of text strings. -/
def texts (items : List String) : Value :=
  .array (items.map .text)

end Value

end SecurityKey.Cbor
