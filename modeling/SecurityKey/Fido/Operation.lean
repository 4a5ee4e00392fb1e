import SecurityKey.Fido.Ctap2
import SecurityKey.Fido.U2f

/-!
# Operations

An operation is a kind of command in one of the two protocols. `Operation.resolve` chooses it by what the
authenticator speaks, `execute` connects, chooses and carries it out.
-/

namespace SecurityKey.Fido

/-- What can be carried out on an authenticator. -/
inductive Operation
  | ctap2MakeCredential
  | ctap2GetAssertion
  | ctap2GetInfo
  | ctap1MakeCredential
  | ctap1GetAssertion
  deriving DecidableEq, Repr

namespace Operation

/-- All operations. -/
def all : List Operation :=
  [ctap2MakeCredential, ctap2GetAssertion, ctap2GetInfo, ctap1MakeCredential, ctap1GetAssertion]

/-- The text of an operation. -/
def name : Operation → String
  | ctap2MakeCredential => "CTAP2 makeCredential"
  | ctap2GetAssertion => "CTAP2 getAssertion"
  | ctap2GetInfo => "CTAP2 getInfo"
  | ctap1MakeCredential => "U2F register"
  | ctap1GetAssertion => "U2F authenticate"

/-- The kind of command of an operation. -/
def kind : Operation → CommandKind
  | ctap2MakeCredential | ctap1MakeCredential => .makeCredential
  | ctap2GetAssertion | ctap1GetAssertion => .getAssertion
  | ctap2GetInfo => .getInfo

/-- Whether an operation belongs to CTAP2. -/
def isCtap2 : Operation → Bool
  | ctap2MakeCredential | ctap2GetAssertion | ctap2GetInfo => true
  | ctap1MakeCredential | ctap1GetAssertion => false

/-- The operation for a kind of command. -/
def resolve (kind : CommandKind) (ctap2 : Bool) : Except Error Operation :=
  match kind, ctap2 with
  | .makeCredential, true => .ok ctap2MakeCredential
  | .getAssertion, true => .ok ctap2GetAssertion
  | .getInfo, true => .ok ctap2GetInfo
  | .makeCredential, false => .ok ctap1MakeCredential
  | .getAssertion, false => .ok ctap1GetAssertion
  | .getInfo, false => .error (.unsupported "authenticatorGetInfo requires CTAP2")

variable {σ : Type} (card : Card σ) (config : Config)

/-- An operation carried out for a command of its kind. -/
def execute (o : Operation) (c : Command) : Action (Session σ) Error Answer :=
  match o, c with
  | ctap2MakeCredential, .create c => Answer.credential <$> Ctap2.makeCredential card config c
  | ctap2GetAssertion, .sign s => Answer.credential <$> Ctap2.getAssertion card config s
  | ctap2GetInfo, .info => Answer.info <$> Ctap2.getInfo card config
  | ctap1MakeCredential, .create c => Answer.credential <$> U2f.makeCredential card config c
  | ctap1GetAssertion, .sign s => Answer.credential <$> U2f.getAssertion card config s
  | o, c => throw (.unsupported (o.name ++ " cannot execute " ++ c.kind.name))

end Operation

/-- A command carried out on a session, connected first where it is not. -/
def execute {σ : Type} (card : Card σ) (config : Config) (c : Command) : Action (Session σ) Error Answer := do
  Session.connect card config
  let o ← Action.ofExcept id (Operation.resolve c.kind (← get).isCtap2)
  o.execute card config c

end SecurityKey.Fido
