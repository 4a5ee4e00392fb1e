import SecurityKey.Bytes

/-!
# PINs

A PIN is a text that is not shown. Every application has its own rules for it.
-/

namespace SecurityKey

/-- A PIN. -/
structure Pin where
  text : String
  deriving DecidableEq

namespace Pin

/-- What a PIN shows of itself. -/
def describe (_ : Pin) : String := "Pin(<redacted>)"

/-- The bytes of a PIN. -/
def bytes (p : Pin) : Bytes := Bytes.ofString p.text

end Pin

end SecurityKey
