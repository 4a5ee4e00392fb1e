import SecurityKey.Crypto.PinProtocol

/-!
# Secrets in memory

A `Secret` shows its length but never its contents, and is empty once wiped. A PIN token is a secret under which
messages are authenticated.
-/

namespace SecurityKey.Crypto

/-- Bytes that are not shown. -/
structure Secret where
  contents : Bytes
  deriving DecidableEq

namespace Secret

/-- How many bytes a secret has. -/
def size (s : Secret) : Nat := s.contents.length

/-- The secret once its contents are gone. -/
def wipe (_ : Secret) : Secret := ⟨[]⟩

/-- What a secret shows of itself. -/
def describe (s : Secret) : String :=
  "SecBytes \x7b len: " ++ toString s.size ++ ", data: \"<redacted>\" \x7d"

end Secret

/-- The token that authorises commands after the PIN was given. -/
structure PinToken where
  /-- The key of the token's authentication codes. -/
  key : Secret
  deriving DecidableEq

namespace PinToken

/-- The token of its bytes. -/
def ofBytes (token : Bytes) : PinToken := ⟨⟨token⟩⟩

/-- The token an authenticator sent encrypted under the session key. -/
def decrypt (sessionKey encrypted : Bytes) : Except Error PinToken :=
  ofBytes <$> PinProtocol.decrypt sessionKey encrypted

/-- The authentication code of a message. -/
def authenticate (t : PinToken) (message : Bytes) : Bytes :=
  PinProtocol.authenticate t.key.contents message

end PinToken

end SecurityKey.Crypto
