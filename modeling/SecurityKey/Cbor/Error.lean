/-!
# CBOR errors

What can be wrong with an encoded item or with the shape of a decoded one.
-/

namespace SecurityKey.Cbor

/-- Why an item, or a structure read from items, is refused. -/
inductive Error
  /-- The bytes are no data item. -/
  | malformed
  /-- Authenticator data end inside the named part. -/
  | truncated (part : String)
  | trailingBytes (count : Nat)
  | missingField (field : String)
  /-- A field is not of the expected kind. -/
  | unexpectedType (field expected : String)
  deriving DecidableEq, Repr

/-- The text of an error. -/
def Error.message : Error → String
  | .malformed => "malformed CBOR"
  | .truncated part => "malformed CBOR: authenticator data truncated in " ++ part
  | .trailingBytes count => toString count ++ " trailing bytes after CBOR item"
  | .missingField field => "missing field " ++ field
  | .unexpectedType field expected => "field " ++ field ++ ": expected " ++ expected

end SecurityKey.Cbor
