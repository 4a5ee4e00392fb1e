import SecurityKey.Fido.Pin
import SecurityKey.Proofs.Crypto.PinProtocol
import SecurityKey.Proofs.Ctap.PinMessages
import SecurityKey.Proofs.Simulated.Card
import SecurityKey.Proofs.Simulated.PinProtocol
import SecurityKey.Proofs.Utf8

/-!
# What an authenticator answers to PIN requests

An authenticator that knows PINs reads a PIN request back as it was made (`process_pinRequest`, `run_clientPin`). With
a host whose key pair it agrees with, it gives its token for the PIN, and stores a new PIN whose code is right.
-/

namespace SecurityKey.Simulated.Authenticator

open Cbor (Fields Value)
open Crypto (KeyPair)
open Ctap (ClientPin PinResponse Status)
open Fido.Session (ctap2Apdu)

variable {a : Authenticator} {r : ClientPin} {n : Nat}

/-- The data of an answer to a PIN request. -/
def pinData : Except Status PinResponse → Bytes
  | .ok response => Ctap.response (some response.toValue)
  | .error status => [status.toByte]

/-- A PIN request is answered with what its parameters ask for. -/
theorem process_pinRequest (ha : a.ctap2 = true) (hr : r.Bounded n) (hn : n < 2 ^ 64) :
    a.process (ctap2Apdu r.toBytes) = (.ok (pinData (clientPin r.toValue a).1), (clientPin r.toValue a).2) := by
  have hdecode := ((ClientPin.stable_toValue hr hn).mono (m := 32) (by decide)).decode
  have hrun : ctap2Request r.toBytes a =
      ((clientPin r.toValue a).1.map PinResponse.toValue, (clientPin r.toValue a).2) := by
    have hbytes : r.toBytes = 0x06 :: Value.encode r.toValue := rfl
    cases hbody : Value.encode r.toValue with
    | nil => rw [hbody] at hdecode; cases hdecode
    | cons b rest =>
      rw [hbody] at hdecode
      rw [hbytes, hbody]
      show ((Action.ofExcept (fun _ => Status.invalidCbor) (Cbor.decode (b :: rest)) >>= fun parameters =>
        execute 0x06 (some parameters) : Action Authenticator Status Value)) a = _
      rw [hdecode, Action.run_bind]
      show (clientPin r.toValue >>= fun response => pure response.toValue) a = _
      rw [Action.run_bind]
      rcases clientPin r.toValue a with ⟨_ | _, a'⟩ <;> rfl
  rw [process_ctap2Apdu ha, hrun]
  rcases clientPin r.toValue a with ⟨_ | _, a'⟩ <;> rfl

/-! ## Parameters -/

/-- The parameters of a request are the fields it was made with. -/
theorem bytes?_fields (r : ClientPin) : bytes? (.ofRecord r.fields) 4 = r.pinAuth ∧
    bytes? (.ofRecord r.fields) 5 = r.newPinEnc ∧ bytes? (.ofRecord r.fields) 6 = r.pinHashEnc := by
  have h4 : (Fields.ofRecord r.fields).get? 4 = r.pinAuth.map .bytes := r.get?_fields 4
  have h5 : (Fields.ofRecord r.fields).get? 5 = r.newPinEnc.map .bytes := r.get?_fields 5
  have h6 : (Fields.ofRecord r.fields).get? 6 = r.pinHashEnc.map .bytes := r.get?_fields 6
  have hread : ∀ (fields : Fields) (key : Int) (field : Option Bytes), fields.get? key = field.map .bytes →
      bytes? fields key = field := by
    intro fields key field h
    rw [bytes?, Fields.bytes?, Fields.optional, h]
    cases field <;> rfl
  exact ⟨hread _ _ _ h4, hread _ _ _ h5, hread _ _ _ h6⟩

/-- What a request asks for is told by its subcommand. -/
theorem run_clientPin (ha : a.pinSupported = true) (r : ClientPin) : clientPin r.toValue a =
    (match r.subcommand with
      | .getRetries => pure { PinResponse.empty with retries := some a.retries.toUInt64 }
      | .getKeyAgreement =>
        pure { PinResponse.empty with keyAgreement := some (publicKey .ecdhEsHkdf256 a.agreementKey) }
      | .getPinToken => giveToken (.ofRecord r.fields)
      | .setPin => setPin (.ofRecord r.fields)
      | .changePin => changePin (.ofRecord r.fields)) a := by
  have hsubcommand : (((Fields.ofRecord r.fields).unsigned 2).toOption.bind fun k =>
      Ctap.PinSubcommand.ofByte? (.ofNat k.toNat)) = some r.subcommand := by
    have h2 : (Fields.ofRecord r.fields).get? 2 = some (.ofNat r.subcommand.toByte.toNat) := r.get?_fields 2
    rw [Fields.unsigned, Fields.get, h2]
    cases r.subcommand <;> rfl
  unfold clientPin
  rw [Action.run_bind, Action.run_get]
  simp only [ha, Bool.not_true, Bool.false_eq_true, if_false]
  rw [r.ofValue_toValue, Action.run_bind]
  simp only [Action.ofExcept, Action.mapError_ok, hsubcommand]
  cases r.subcommand <;> rfl

/-! ## What the subcommands do -/

variable {host : Credential.PublicKey} {shared enc code : Bytes} {current new : String}

/-- The session key of a request that names a key the authenticator agrees with. -/
theorem run_sessionKey (hkey : r.keyAgreement = some host)
    (hshared : a.agreementKey.agreeCoordinates host.x.val host.y.val = .ok shared) :
    sessionKey (.ofRecord r.fields) a = (.ok (Crypto.PinProtocol.sessionKey shared), a) := by
  have h3 : (Fields.ofRecord r.fields).get? 3 = r.keyAgreement.map Credential.PublicKey.toValue := r.get?_fields 3
  have hhost : ((Fields.ofRecord r.fields).get? 3).bind (fun v => (Credential.PublicKey.ofValue v).toOption) =
      some host := by
    rw [h3, hkey, Option.map_some, Option.bind_some, host.ofValue_toValue]
    rfl
  unfold sessionKey
  rw [hhost]
  simp only [parameter, Action.run_bind, Action.run_pure, Action.run_get, PinProtocol.sessionKey?_eq, hshared]
  rfl

/-- A digest that is the PIN's gives all attempts back; another one costs an attempt. -/
theorem run_checkPinHash {key hash : Bytes} (hretries : a.retries ≠ 0) (hpin : a.pin = some current)
    (hhash : Crypto.PinProtocol.decrypt key enc = .ok hash) : checkPinHash key enc a =
      if hash = Crypto.PinProtocol.hashPin current then (.ok (), { a with retries := maxRetries })
      else (.error (if a.retries - 1 = 0 then .pinBlocked else .pinInvalid), { a with retries := a.retries - 1 }) := by
  have hdecrypted : PinProtocol.decrypt? key enc = some hash := by rw [PinProtocol.decrypt?_eq, hhash]; rfl
  unfold checkPinHash
  rw [Action.run_bind, Action.run_get]
  simp only [hretries, if_false, hpin, Action.run_bind, hdecrypted, valid, Action.run_pure, PinProtocol.digest_eq]
  split
  · rfl
  · rfl

/-- A host's code of a message is the right one. -/
theorem run_checkCode (key message : Bytes) (a : Authenticator) :
    checkCode key message (Crypto.PinProtocol.authenticate key message) a = (.ok (), a) := by
  rw [checkCode, PinProtocol.code_eq, if_pos rfl]
  rfl

/-- The token, to who knows the PIN. -/
theorem run_giveToken {key : Bytes} (hretries : a.retries ≠ 0) (hpin : a.pin = some current)
    (hkey : sessionKey (.ofRecord r.fields) a = (.ok key, a)) (henc : r.pinHashEnc = some enc)
    (hhash : Crypto.PinProtocol.decrypt key enc = .ok (Crypto.PinProtocol.hashPin current))
    (htoken : Crypto.PinProtocol.encrypt key a.token = .ok code) : giveToken (.ofRecord r.fields) a =
      (.ok { PinResponse.empty with pinToken := some code }, { a with retries := maxRetries }) := by
  have hencrypted : PinProtocol.encrypt? key a.token = some code := by rw [PinProtocol.encrypt?_eq, htoken]; rfl
  unfold giveToken
  rw [Action.bind_of_ok hkey, (bytes?_fields r).2.2, henc]
  simp only [parameter, Action.run_bind, Action.run_pure, run_checkPinHash hretries hpin hhash, if_pos, Action.run_get,
    hencrypted, valid]

/-- An attempt is spent by who does not know the PIN. -/
theorem run_giveToken_of_ne {key hash : Bytes} (hretries : a.retries ≠ 0) (hpin : a.pin = some current)
    (hkey : sessionKey (.ofRecord r.fields) a = (.ok key, a)) (henc : r.pinHashEnc = some enc)
    (hhash : Crypto.PinProtocol.decrypt key enc = .ok hash) (hne : hash ≠ Crypto.PinProtocol.hashPin current) :
    giveToken (.ofRecord r.fields) a = (.error (if a.retries - 1 = 0 then .pinBlocked else .pinInvalid),
      { a with retries := a.retries - 1 }) := by
  unfold giveToken
  rw [Action.bind_of_ok hkey, (bytes?_fields r).2.2, henc]
  simp only [parameter, Action.run_bind, Action.run_pure, run_checkPinHash hretries hpin hhash, if_neg hne]

/-- Without an attempt nothing is compared. -/
theorem run_giveToken_of_zero {key : Bytes} (hretries : a.retries = 0)
    (hkey : sessionKey (.ofRecord r.fields) a = (.ok key, a)) (henc : r.pinHashEnc = some enc) :
    giveToken (.ofRecord r.fields) a = (.error .pinBlocked, a) := by
  have hcheck : checkPinHash key enc a = (.error .pinBlocked, a) := by
    unfold checkPinHash
    rw [Action.run_bind, Action.run_get]
    simp only [hretries, if_true]
    rfl
  unfold giveToken
  rw [Action.bind_of_ok hkey, (bytes?_fields r).2.2, henc]
  simp only [parameter, Action.run_bind, Action.run_pure, hcheck]

/-- What is stored of a padded PIN. -/
theorem newPin_eq {key : Bytes} (hpolicy : (Bytes.ofString new).length ≤ 63)
    (hnew : Crypto.PinProtocol.decrypt key enc = Crypto.PinProtocol.padPin new) :
    newPin key enc = .ok (beforeZero new) := by
  have hcut : (Bytes.ofString new ++ List.replicate (64 - (Bytes.ofString new).length) 0).takeWhile (· ≠ 0) =
      Bytes.ofString (beforeZero new) := by
    rw [← Bytes.takeWhile_ofString, List.takeWhile_append]
    split
    · rename_i hall
      rw [(List.takeWhile_prefix _).eq_of_length hall, List.takeWhile_replicate]
      simp
    · rfl
  rw [newPin, PinProtocol.decrypt?_eq, hnew, Crypto.PinProtocol.padPin_eq hpolicy]
  simp only [Except.toOption, hcut, Bytes.toString?_ofString]

/-- A PIN is stored where there is none. -/
theorem run_setPin {key : Bytes} (hpin : a.pin = none) (hkey : sessionKey (.ofRecord r.fields) a = (.ok key, a))
    (hcode : r.pinAuth = some (Crypto.PinProtocol.authenticate key enc)) (hnew : r.newPinEnc = some enc)
    (hstored : newPin key enc = .ok new) :
    setPin (.ofRecord r.fields) a = (.ok .empty, { a with pin := some new }) := by
  unfold setPin
  rw [Action.run_bind, Action.run_get]
  simp only [hpin, Option.isSome_none, Bool.false_eq_true, if_false]
  rw [Action.bind_of_ok hkey, (bytes?_fields r).2.1, (bytes?_fields r).1, hcode, hnew]
  simp only [parameter, Action.run_bind, Action.run_pure, run_checkCode, storePin, hstored, Action.ofExcept,
    Action.mapError_ok, Action.run_modify]

/-- Where there is a PIN, no other is set in its place. -/
theorem run_setPin_of_some (hpin : a.pin = some current) :
    setPin (.ofRecord r.fields) a = (.error .pinAuthInvalid, a) := by
  unfold setPin
  rw [Action.run_bind, Action.run_get]
  simp only [hpin, Option.isSome_some, if_true]
  rfl

/-- A PIN is replaced for who knows it. -/
theorem run_changePin {key hashEnc : Bytes} (hretries : a.retries ≠ 0) (hpin : a.pin = some current)
    (hkey : sessionKey (.ofRecord r.fields) a = (.ok key, a))
    (hcode : r.pinAuth = some (Crypto.PinProtocol.authenticate key (enc ++ hashEnc)))
    (hnew : r.newPinEnc = some enc) (hstored : newPin key enc = .ok new) (henc : r.pinHashEnc = some hashEnc)
    (hhash : Crypto.PinProtocol.decrypt key hashEnc = .ok (Crypto.PinProtocol.hashPin current)) :
    changePin (.ofRecord r.fields) a = (.ok .empty, { a with pin := some new, retries := maxRetries }) := by
  unfold changePin
  rw [Action.bind_of_ok hkey, (bytes?_fields r).1, (bytes?_fields r).2.1, (bytes?_fields r).2.2, hcode, hnew, henc]
  simp only [parameter, Action.run_bind, Action.run_pure, run_checkCode, run_checkPinHash hretries hpin hhash, if_pos,
    storePin, hstored, Action.ofExcept, Action.mapError_ok, Action.run_modify]

end SecurityKey.Simulated.Authenticator
