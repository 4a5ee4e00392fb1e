import SecurityKey.Proofs.Attempts.Authenticators
import SecurityKey.Proofs.Attempts.Cards
import SecurityKey.Proofs.Exchange

/-!
# The counters that the host tells

Over every sequence of submissions, to an authenticator or to an OpenPGP card, the caller is told what is left of the
attempts (`attempts_reported`). A simulated authenticator and a simple card (`tallying`) are devices that this is about.
-/

namespace SecurityKey.Attempts

open Apdu (StatusWord)
open OpenPgp (CountingCard PinReference Secret)
open OpenPgp.Session (chunkSize verifyApdu)

/-! ## A simple card -/

/-- The status word of a refusal that leaves some attempts. -/
def refusalWord (left : UInt8) : StatusWord :=
  if left = 0 then .authMethodBlocked
  else if left ≤ 15 then ⟨0x63, 0xc0 ||| left⟩
  else .securityStatusNotSatisfied

/-- A counter set to a number of attempts. -/
def setLeft (k : Secret) (n : UInt8) (left : Secret → UInt8) : Secret → UInt8 := fun x => if x = k then n else left x

/-- The PIN that a command is about. -/
def secretOf (c : Apdu.Command) : Secret := if c.p2 = PinReference.admin.toByte then .admin else .user

/-- A PIN submitted to a card with these PINs: the right one gives three attempts back. -/
def tally (pins : Secret → Bytes) (k : Secret) (pin : Bytes) (left : Secret → UInt8) :
    StatusWord × (Secret → UInt8) :=
  if left k = 0 then (refusalWord 0, left)
  else if pin = pins k then (.success, setLeft k 3 left)
  else (refusalWord (left k - 1), setLeft k (left k - 1) left)

/-- A card that verifies PINs and tells its status. -/
def tallying (pins : Secret → Bytes) : Card (Secret → UInt8) where
  connect := pure ()
  transceive c left :=
    if c.ins = 0x20 then (.ok ⟨[], (tally pins (secretOf c) c.data left).1⟩, (tally pins (secretOf c) c.data left).2)
    else (.ok ⟨[0, 32, 32, 32, left .user, 0, left .admin], .success⟩, left)
  release := id
  isConnected _ := true
  supportsExtended _ := true

section Refusals

variable (left : UInt8)

theorem final_refusalWord : Exchange.Final (refusalWord left) := by
  unfold refusalWord
  split
  · exact ⟨by decide, rfl, rfl⟩
  · split
    · refine ⟨fun h => ?_, rfl, rfl⟩
      cases congrArg StatusWord.sw1 h
    · exact ⟨by decide, rfl, rfl⟩

theorem isSuccess_refusalWord : (refusalWord left).isSuccess = false := by
  unfold refusalWord
  split
  · rfl
  · split
    · refine decide_eq_false fun h => ?_
      cases congrArg StatusWord.sw1 h
    · rfl

theorem refusal_refusalWord {status : Prop} (h : status) : OpenPgp.Refusal left status (refusalWord left) := by
  unfold refusalWord
  split
  · exact .blocked ‹_›
  · split
    · exact .counter ‹_›
    · exact .bare h

end Refusals

section Tallying

variable (pins : Secret → Bytes)

/-- What becomes of a PIN and of the counters. -/
theorem tally_cases (k : Secret) (pin : Bytes) (left : Secret → UInt8) :
    ∃ sw left', tally pins k pin left = (sw, left') ∧ Exchange.Final sw ∧
      Verdict (¬ pin = pins k) (left k) sw.isSuccess (left' k) ∧ (∀ x, x ≠ k → left' x = left x) ∧
      (sw.isSuccess = false → sw = refusalWord (left' k)) := by
  unfold tally
  by_cases h0 : left k = 0
  · refine ⟨_, _, if_pos h0, final_refusalWord 0, ?_, fun _ _ => rfl, fun _ => by rw [h0]⟩
    rw [h0, isSuccess_refusalWord]
    exact .of_zero
  · rw [if_neg h0]
    have hset : ∀ n, setLeft k n left k = n := fun _ => if_pos rfl
    have hothers : ∀ n x, x ≠ k → setLeft k n left x = left x := fun _ _ hne => if_neg hne
    by_cases hpin : pin = pins k
    · exact ⟨_, _, if_pos hpin, Exchange.final_success, .accepted h0 (not_not_intro hpin), hothers 3, nofun⟩
    · refine ⟨_, _, if_neg hpin, final_refusalWord _, ?_, hothers _, fun _ => by rw [hset]⟩
      rw [hset, isSuccess_refusalWord]
      exact .of_wrong h0 hpin

/-- Such a card takes every command at once. -/
theorem transmit_tallying {c : Apdu.Command} {left left' : Secret → UInt8} {a : Apdu.Response}
    (h : (tallying pins).transceive c left = (.ok a, left')) (ha : Exchange.Final a.sw) :
    Exchange.transmit (tallying pins) c chunkSize left = (.ok a, left') := by
  have hsend : Exchange.send (tallying pins) c left = (.ok a, left') := by
    rw [Exchange.send, Action.run_adapt, h]
    rfl
  rw [Exchange.transmit_eq_send chunkSize rfl, hsend]
  intro r t hr
  rw [hsend] at hr
  cases hr
  exact ha

theorem secretOf_verifyApdu (r : PinReference) (pin : Pin) : secretOf (verifyApdu r pin) = r.secret := by
  cases r <;> rfl

/-- Such a card counts the attempts at its PINs. -/
def countingTally : CountingCard (tallying pins) where
  inReach _ := True
  left t := t
  IsPin k pin := pin = pins k
  verify {left} r pin _ := by
    obtain ⟨sw, left', hrun, hfinal, hverdict, hothers, hrefusal⟩ := tally_cases pins r.secret pin.bytes left
    have hverify : (tallying pins).transceive (verifyApdu r pin) left = (.ok ⟨[], sw⟩, left') := by
      have htally : (tallying pins).transceive (verifyApdu r pin) left =
          (.ok ⟨[], (tally pins (secretOf (verifyApdu r pin)) pin.bytes left).1⟩,
            (tally pins (secretOf (verifyApdu r pin)) pin.bytes left).2) := rfl
      rw [htally, secretOf_verifyApdu, hrun]
    have hstatus : OpenPgp.TellsStatus (tallying pins) (fun _ => True) (fun t => t) left' :=
      ⟨_, _, transmit_tallying pins rfl Exchange.final_success, rfl, ⟨0, 32, 32, 32, 0, [], rfl⟩, trivial, rfl⟩
    refine ⟨_, _, transmit_tallying pins hverify hfinal, trivial, hverdict, hothers, fun hrefused => ?_⟩
    rw [hrefusal hrefused]
    exact refusal_refusalWord _ hstatus

end Tallying

/-! ## Reports -/

/-- Each wrong PIN that is submitted costs one attempt, where one is left, and its error tells how many are left then,
or that none is; and from the first submission that is told that none is left, every later one is told so. That is so
for an authenticator, with consent to use the last attempt, and for both PINs of an OpenPGP card. -/
theorem attempts_reported :
    (∀ {σ : Type} {card : Card σ} {config : Fido.Config} {secret : Option Bytes}
      (h : Fido.Pin.CountingAuthenticator card config.chunkSize), h.Agrees config secret →
      ∀ s : Fido.Session σ, h.inReach s.card → (Fido.Pin.submissions secret config h).Reports s) ∧
    ∀ {σ : Type} {card : Card σ} (h : CountingCard card) (s : OpenPgp.Session σ), h.inReach s.card →
      (OpenPgp.verifications h).Reports s :=
  ⟨fun h hkeys _ hs => (Fido.Pin.tells_submissions h hkeys).reports hs,
    fun h _ hs => (OpenPgp.tells_verifications h).reports hs⟩

/-- The PINs of a card. -/
def digits : Secret → Bytes
  | .user => Bytes.ofString "123456"
  | .admin => Bytes.ofString "12345678"

/-- An authenticator and a card with three attempts left. -/
theorem attempts_reported_of_three :
    let a : Simulated.Authenticator := { Fido.Pin.withDigits with retries := 3 }
    let h := Fido.Pin.countingSimulated "1234" a.agreementKey Fido.Pin.fixedKeys.chunkSize
    let s := Fido.Pin.sessionWith a
    let t := OpenPgp.Session.new fun _ : Secret => (3 : UInt8)
    (h.Agrees Fido.Pin.fixedKeys (some Fido.Pin.hostSecret) ∧ h.inReach s.card ∧
      (Fido.Pin.getPinToken Simulated.Card.card Fido.Pin.fixedKeys (some Fido.Pin.hostSecret) ⟨"0000"⟩ true s).1 =
        .error (refusal 2)) ∧
      (countingTally digits).inReach t.card ∧
      (OpenPgp.Session.verify (tallying digits) .admin ⟨"0000"⟩ t).1 = .error (refusal 2) := by
  intro a h s t
  have hkeys : h.Agrees Fido.Pin.fixedKeys (some Fido.Pin.hostSecret) := by
    obtain ⟨host, shared, hhost, hshared⟩ := Fido.Pin.exists_keyAgreement
    exact fun _ _ _ => ⟨host, shared, hhost, hshared⟩
  have hs : h.inReach s.card :=
    ⟨a, [], Fido.Pin.holds_sessionWith a, ⟨⟨rfl, rfl⟩, rfl, rfl, by decide, by decide⟩⟩
  have hreports := attempts_reported.1 h hkeys s hs
  have hreports' := attempts_reported.2 (countingTally digits) t trivial
  have htwo : ∀ {n : UInt8}, n.toNat = (3 : UInt8).toNat - 1 → n = 2 := fun hn => UInt8.toNat_inj.mp hn
  refine ⟨⟨hkeys, hs, ?_⟩, trivial, ?_⟩
  · have hwrong : Crypto.PinProtocol.hashPin "0000" ≠ Crypto.PinProtocol.hashPin "1234" := by decide +kernel
    have htold := hreports.told [] ⟨"0000"⟩ () rfl hwrong
    rwa [htwo (hreports.counted [] ⟨"0000"⟩ () rfl hwrong)] at htold
  · have hwrong : ¬ Bytes.ofString "0000" = digits .admin := by decide +kernel
    have htold := hreports'.told [] (.verify .admin ⟨"0000"⟩) .admin rfl hwrong
    rwa [htwo (hreports'.counted [] (.verify .admin ⟨"0000"⟩) .admin rfl hwrong)] at htold

end SecurityKey.Attempts
