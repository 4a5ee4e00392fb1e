import SecurityKey.Cbor.Error
import SecurityKey.Cbor.Value

/-!
# Typed fields of a map

Messages are maps with numeric keys. `Fields` is the list of entries of such a map. A required field that is absent
is reported as missing, and a field of the wrong kind as unexpected, under its decimal key.
-/

namespace SecurityKey.Cbor

/-- The entries of a map whose fields are read by number. -/
structure Fields where
  entries : List (Value × Value)

namespace Fields

/-- The fields of an item, which has to be a map. -/
def ofValue (v : Value) : Except Error Fields :=
  match v.toMap? with
  | some entries => .ok ⟨entries⟩
  | none => .error (.unexpectedType "top level" "map")

variable (fields : Fields) (key : Int)

/-- The value of a field, if the field is present. -/
def get? : Option Value :=
  Value.lookup fields.entries key

/-- Whether a field is present. -/
def contains : Bool :=
  (fields.get? key).isSome

/-- The value of a required field. -/
def get : Except Error Value :=
  match fields.get? key with
  | some v => .ok v
  | none => .error (.missingField (toString key))

/-- A field read as a given kind. -/
def kind {α : Type} (expected : String) : Option α → Except Error α
  | some x => .ok x
  | none => .error (.unexpectedType (toString key) expected)

/-- An optional field read as a given kind. -/
def optional {α : Type} (read : Value → Option α) (expected : String) : Except Error (Option α) :=
  match fields.get? key with
  | some v => (kind key expected (read v)).map some
  | none => .ok none

/-- A required byte string. -/
def bytes : Except Error Bytes := do
  kind key "byte string" (← fields.get key).toBytes?

/-- An optional byte string. -/
def bytes? : Except Error (Option Bytes) :=
  fields.optional key Value.toBytes? "byte string"

/-- A required text string. -/
def text : Except Error String := do
  kind key "text string" (← fields.get key).toText?

/-- A required unsigned number. -/
def unsigned : Except Error UInt64 := do
  kind key "unsigned integer" (← fields.get key).toUnsigned?

/-- An optional unsigned number. -/
def unsigned? : Except Error (Option UInt64) :=
  fields.optional key Value.toUnsigned? "unsigned integer"

/-- An optional array. -/
def array? : Except Error (Option (List Value)) :=
  fields.optional key Value.toArray? "array"

end Fields

end SecurityKey.Cbor
