import SecurityKey.Proofs.Ctap.CredentialMessages
import SecurityKey.Proofs.Ctap.Information
import SecurityKey.Proofs.Ctap.PinMessages

/-!
# Answers survive the wire

What an authenticator writes into an answer the host reads from it: `Survives` says so of one item, with the functions
that write and read its kind. An item survives when it is read from its canonical form and is not nested too deeply
(`survives_of_canon`). All but attestations are shallow and survive as they are; an attestation survives exactly when
its statement is canonical and the whole of it within reach of the decoder (`survives_attestation_iff`).
-/

namespace SecurityKey.Ctap

open Cbor (Value)
open Credential (Attestation Descriptor PublicKey User)

section Survival

variable {α : Type} {write : α → Value} {read : Value → Except Cbor.Error α} {x : α}

/-- The host reads from the answer what was written into it. -/
def Survives (write : α → Value) (read : Value → Except Cbor.Error α) (x : α) : Prop :=
  ∃ v, parseResponse (response (some (write x))) = .ok (some v) ∧ read v = .ok x

/-- What is read from its canonical form survives. -/
theorem survives_of_canon {n : Nat} (hfits : (write x).Fits) (hneed : (write x).need ≤ n) (hn : n ≤ 32)
    (h : read (write x).canon = .ok x) : Survives write read x :=
  ⟨_, parseResponse_response hfits (Nat.le_trans hneed hn), h⟩

/-- Only what is within reach of the decoder survives. -/
theorem Survives.need_le (hfits : (write x).Fits) (h : Survives write read x) : (write x).need ≤ 32 := by
  apply Nat.le_of_not_lt
  intro hneed
  obtain ⟨v, hparse, -⟩ := h
  rw [parseResponse_of_lt_need hfits hneed] at hparse
  cases hparse

/-- What survives is read from its canonical form. -/
theorem Survives.ofCanon (hfits : (write x).Fits) (h : Survives write read x) : read (write x).canon = .ok x := by
  have hneed := h.need_le hfits
  obtain ⟨v, hparse, hread⟩ := h
  rw [parseResponse_response hfits hneed] at hparse
  obtain rfl := Option.some.inj (Except.ok.inj hparse)
  exact hread

end Survival

/-- An attestation survives when its statement is canonical and it is not nested too deeply, and not otherwise. -/
theorem survives_attestation_iff {a : Attestation} (h : a.toValue.Fits) :
    Survives Attestation.toValue Attestation.ofValue a ↔ a.statement.canon = a.statement ∧ a.toValue.need ≤ 32 := by
  constructor
  · intro hs
    refine ⟨?_, hs.need_le h⟩
    have hread := hs.ofCanon h
    rw [Attestation.ofValue_canon] at hread
    exact congrArg Attestation.statement (Except.ok.inj hread)
  · rintro ⟨hcanon, hneed⟩
    apply survives_of_canon h hneed (Nat.le_refl 32)
    rw [Attestation.ofValue_canon, hcanon]

/-- Every answer is read as what was written into it, whichever of its parts are present and however long they are. An
attestation has to carry a canonical statement that the decoder can reach the bottom of. -/
theorem answers_survive :
    (∀ i : Info, i.toValue.Fits → Survives Info.toValue Info.ofValue i) ∧
    (∀ r : PinResponse, r.toValue.Fits →
      Survives PinResponse.toValue (fun v => PinResponse.ofValue? (some v)) r) ∧
    (∀ a : Assertion, a.toValue.Fits → Survives Assertion.toValue Assertion.ofValue a) ∧
    (∀ k : PublicKey, Survives PublicKey.toValue PublicKey.ofValue k) ∧
    (∀ u : User, u.toValue.Fits → Survives User.toValue User.ofValue u) ∧
    (∀ d : Descriptor, d.toValue.Fits → Survives Descriptor.toValue Descriptor.ofValue d) ∧
    ∀ a : Attestation, a.toValue.Fits → a.statement.canon = a.statement → a.toValue.need ≤ 32 →
      Survives Attestation.toValue Attestation.ofValue a := by
  refine ⟨?_, ?_, ?_, ?_, ?_, ?_, ?_⟩
  · intro i h
    exact survives_of_canon h i.need_toValue_le (by decide) i.ofValue_canon
  · intro r h
    have hstable : Cbor.Value.Stable 5 r.toValue := by
      apply r.stable_toValue
      intro token htoken
      have htwo : (2, some (Value.bytes token)) ∈ r.fields := by
        rw [PinResponse.fields, htoken]
        exact List.mem_cons_of_mem _ List.mem_cons_self
      have hrecord : (Value.record r.fields).Fits := h
      exact hrecord.of_record htwo
    apply survives_of_canon h hstable.need_le (by decide)
    rw [hstable.canonical]
    exact r.ofValue?_toValue
  · intro a h
    exact survives_of_canon h a.need_toValue_le (by decide) a.ofValue_canon
  · intro k
    exact survives_of_canon k.stable_toValue.fits k.stable_toValue.need_le (by decide) k.ofValue_canon
  · intro u h
    exact survives_of_canon h u.need_toValue_le (by decide) u.ofValue_canon
  · intro d h
    exact survives_of_canon h d.need_toValue_le (by decide) d.ofValue_canon
  · intro a h hcanon hneed
    exact (survives_attestation_iff h).mpr ⟨hcanon, hneed⟩

/-- Information with and without its optional parts, an answer with a token, an assertion that tells its user, and an
attestation with a certificate. -/
theorem answers_survive_samples :
    let bare : Info := ⟨["U2F_V2", "FIDO_2_0"], [], .zero 16, .none, none, []⟩
    let full : Info := ⟨["FIDO_2_0"], ["hmac-secret"], .zero 16, ⟨some false, some true, some false, none, some true⟩,
      some 1200, [1, 2]⟩
    let key : PublicKey := ⟨.ecdhEsHkdf256, .zero 32, .zero 32⟩
    let pin : PinResponse := ⟨some key, some [1, 2, 3], none⟩
    let user : User := ⟨[7], some "ann", none, some ""⟩
    let descriptor : Descriptor := ⟨[9, 9], some ["usb", "nfc"]⟩
    let assertion : Assertion := ⟨some descriptor, [0, 1], [0x30], some user, some 2⟩
    let attestation : Attestation := .fidoU2f [0xaa] [0x30, 0] [0x30, 0x44]
    let readPin : Value → Except Cbor.Error PinResponse := fun v => PinResponse.ofValue? (some v)
    Survives Info.toValue Info.ofValue bare ∧ Survives Info.toValue Info.ofValue full ∧
      Survives PinResponse.toValue readPin pin ∧ Survives Assertion.toValue Assertion.ofValue assertion ∧
      Survives PublicKey.toValue PublicKey.ofValue key ∧ Survives User.toValue User.ofValue user ∧
      Survives Descriptor.toValue Descriptor.ofValue descriptor ∧
      attestation.statement.canon = attestation.statement ∧
      Survives Attestation.toValue Attestation.ofValue attestation := by
  intro bare full key pin user descriptor assertion attestation readPin
  obtain ⟨hinfo, hpin, hassertion, hkey, huser, hdescriptor, hattestation⟩ := answers_survive
  have hcanon : attestation.statement.canon = attestation.statement := Attestation.canon_statement_fidoU2f ..
  exact ⟨hinfo bare (by decide), hinfo full (by decide), hpin pin (by decide), hassertion assertion (by decide),
    hkey key, huser user (by decide), hdescriptor descriptor (by decide), hcanon,
    hattestation attestation (by decide) hcanon (by decide)⟩

end SecurityKey.Ctap
