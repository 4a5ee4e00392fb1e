import SecurityKey.Fido.Credential
import SecurityKey.Proofs.Credential.AuthenticatorData

/-!
# What conveyance changes

A relying party that does not want the attestation itself gets the bytes of the authenticator with the model blanked
out (`blankModel`), and nothing else of them moves:

- data with a blanked model are written as the blanked bytes and are read back from them
  (`AuthenticatorData.toBytes_zeroAaguid`, `AuthenticatorData.parse_zeroAaguid`);
- so a credential is made of an attestation exactly when the attestation has an attested credential, and the conveyance
  only chooses between the attestation and the blanked one (`PublicKeyCredential.ofAttestation_eq`).
-/

namespace SecurityKey

open Credential (Attestation AttestedCredential AuthenticatorData Conveyance)

/-! ## Blanked bytes -/

namespace Credential

/-- The bytes of authenticator data with zeros for the model, which comes right after the header. -/
def blankModel (bytes : Bytes) : Bytes := bytes.take 37 ++ List.replicate 16 0 ++ bytes.drop 53

theorem getElem?_blankModel {bytes : Bytes} (h : 53 ≤ bytes.length) (i : Nat) :
    (blankModel bytes)[i]? = if 37 ≤ i ∧ i < 53 then some 0 else bytes[i]? := by
  have hfront : (bytes.take 37).length = 37 := List.length_take_of_le (by omega)
  have hblank : (bytes.take 37 ++ List.replicate 16 (0 : UInt8)).length = 53 := by simp [hfront]
  rw [blankModel]
  rcases Nat.lt_or_ge i 53 with hi | hi
  · rw [List.getElem?_append_left (by omega)]
    rcases Nat.lt_or_ge i 37 with hj | hj
    · rw [List.getElem?_append_left (by omega), List.getElem?_take_of_lt hj, if_neg (by omega)]
    · rw [List.getElem?_append_right (by omega), List.getElem?_replicate_of_lt (by omega), if_pos ⟨hj, hi⟩]
  · rw [List.getElem?_append_right (by omega), List.getElem?_drop, hblank, Nat.add_sub_cancel' hi, if_neg (by omega)]

theorem length_blankModel {bytes : Bytes} (h : 53 ≤ bytes.length) : (blankModel bytes).length = bytes.length := by
  simp only [blankModel, List.length_append, List.length_take, List.length_replicate, List.length_drop]
  omega

theorem blankModel_blankModel {bytes : Bytes} (h : 53 ≤ bytes.length) :
    blankModel (blankModel bytes) = blankModel bytes := by
  apply List.ext_getElem?
  intro i
  rw [getElem?_blankModel (by rwa [length_blankModel h]), getElem?_blankModel h]
  split <;> rfl

/-! ## Blanked data -/

namespace AuthenticatorData

variable {a : AuthenticatorData} {c : AttestedCredential} {input : Bytes}

theorem zeroAaguid_of_none (h : a.credential = none) : a.zeroAaguid = a := by
  obtain ⟨rpIdHash, flags, signCount, credential, extensions⟩ := a
  cases h
  rfl

/-- The flags, and the lengths that are told, have nothing to do with the model. -/
theorem Announced.zeroAaguid (h : a.Announced) : a.zeroAaguid.Announced := by
  refine ⟨h.attested.trans Option.isSome_map.symm, h.extended, ?_⟩
  intro blanked hblanked
  obtain ⟨c, hc, rfl⟩ := Option.map_eq_some_iff.mp hblanked
  exact ⟨(h.measured c hc).short, (h.measured c hc).key⟩

theorem toBytes_of_some (h : a.credential = some c) : a.toBytes = headerBytes a.rpIdHash a.flags a.signCount ++
    (c.aaguid.val ++ (Bytes.ofNat 2 c.id.length ++ c.id ++ c.publicKey ++ a.extensions.getD [])) := by
  rw [toBytes_eq, h]
  simp only [Option.map_some, Option.getD_some, credentialBytes, List.append_assoc]

theorem length_headerBytes (rpIdHash : Bytes.Sized 32) (flags : UInt8) (signCount : UInt32) :
    (headerBytes rpIdHash flags signCount).length = 37 := by
  simp [headerBytes, rpIdHash.property]

/-- The model of an attested credential takes the 16 bytes after the header. -/
theorem le_length_toBytes (h : a.credential = some c) : 53 ≤ a.toBytes.length := by
  rw [toBytes_of_some h]
  simp only [List.length_append, length_headerBytes, c.aaguid.property]
  omega

theorem toBytes_zeroAaguid (h : a.credential = some c) : a.zeroAaguid.toBytes = blankModel a.toBytes := by
  have hblanked : a.zeroAaguid.credential = some { c with aaguid := .zero 16 } := by
    rw [zeroAaguid, h]
    rfl
  have hmodel : (headerBytes a.rpIdHash a.flags a.signCount ++ c.aaguid.val).length = 53 := by
    rw [List.length_append, length_headerBytes, c.aaguid.property]
  rw [toBytes_of_some hblanked, blankModel, toBytes_of_some h, List.take_left' (length_headerBytes ..),
    ← List.append_assoc (headerBytes ..) c.aaguid.val, List.drop_left' hmodel, ← List.append_assoc]
  rfl

/-- Blanked data are read back from the blanked bytes. -/
theorem parse_zeroAaguid (h : parse input = .ok a) (hc : a.credential = some c) :
    parse (blankModel input) = .ok a.zeroAaguid := by
  obtain ⟨rfl, hannounced⟩ := of_parse h
  rw [← toBytes_zeroAaguid hc]
  exact parse_of_announced hannounced.zeroAaguid

end AuthenticatorData

end Credential

/-! ## Conveyed attestations -/

namespace Fido.PublicKeyCredential

open Credential (blankModel length_blankModel blankModel_blankModel getElem?_blankModel)

/-- What becomes of an attestation that has an attested credential. -/
def conveyed (a : Attestation) : Conveyance → Attestation
  | .none | .indirect => .none (blankModel a.authData)
  | .direct => a

/-- The identifier is that of the attested credential. -/
theorem attestedId_eq_ok_iff {authData id : Bytes} : attestedId authData = .ok id ↔
    ∃ data c, AuthenticatorData.parse authData = .ok data ∧ data.credential = some c ∧ c.id = id := by
  unfold attestedId
  constructor
  · intro h
    split at h
    · cases h
    · rename_i data hparse
      split at h
      · rename_i c hc
        cases h
        exact ⟨data, c, hparse, hc, rfl⟩
      · cases h
  · rintro ⟨data, c, hparse, hc, rfl⟩
    simp only [hparse, hc]

/-- Blanking the model leaves the identifier. -/
theorem attestedId_blankModel {authData id : Bytes} (h : attestedId authData = .ok id) :
    attestedId (blankModel authData) = .ok id := by
  obtain ⟨data, c, hparse, hc, rfl⟩ := attestedId_eq_ok_iff.mp h
  have hblanked : data.zeroAaguid.credential = some { c with aaguid := .zero 16 } := by
    rw [AuthenticatorData.zeroAaguid, hc]
    rfl
  exact attestedId_eq_ok_iff.mpr ⟨_, _, AuthenticatorData.parse_zeroAaguid hparse hc, hblanked, rfl⟩

theorem le_length_of_attestedId {authData id : Bytes} (h : attestedId authData = .ok id) : 53 ≤ authData.length := by
  obtain ⟨data, c, hparse, hc, -⟩ := attestedId_eq_ok_iff.mp h
  rw [← (AuthenticatorData.of_parse hparse).1]
  exact AuthenticatorData.le_length_toBytes hc

variable {a : Attestation}

theorem anonymize_of_parse {data : AuthenticatorData} (h : AuthenticatorData.parse a.authData = .ok data) :
    anonymize a = .ok (.none data.zeroAaguid.toBytes) := by
  rw [anonymize, h]
  rfl

theorem anonymize_of_error {e : Cbor.Error} (h : AuthenticatorData.parse a.authData = .error e) :
    anonymize a = .error e := by
  rw [anonymize, h]
  rfl

theorem ofAttestation_of_convey {b : Attestation} {conveyance : Conveyance} (h : convey a conveyance = .ok b) :
    ofAttestation a conveyance = (attestedId b.authData).map (⟨·, .attestation b⟩) := by
  rw [ofAttestation, h]
  show (do return ⟨← attestedId b.authData, .attestation b⟩ : Except Error PublicKeyCredential) = _
  cases attestedId b.authData <;> rfl

/-- An attestation without an attested credential makes no credential, with the same error whatever the conveyance. -/
theorem ofAttestation_of_error {e : Error} (h : attestedId a.authData = .error e) (conveyance : Conveyance) :
    ofAttestation a conveyance = .error e := by
  have hsame {b : Attestation} (hconvey : convey a conveyance = .ok b) (hdata : b.authData = a.authData) :
      ofAttestation a conveyance = .error e := by
    rw [ofAttestation_of_convey hconvey, hdata, h]
    rfl
  cases hparse : AuthenticatorData.parse a.authData with
  | error cause =>
    rw [attestedId, hparse] at h
    cases h
    cases conveyance with
    | direct => exact hsame rfl rfl
    | none | indirect => rw [ofAttestation, convey, anonymize_of_error hparse]; rfl
  | ok data =>
    cases hc : data.credential with
    | some c =>
      have hid := attestedId_eq_ok_iff.mpr ⟨data, c, hparse, hc, rfl⟩
      rw [h] at hid
      cases hid
    | none =>
      -- without a credential there is nothing to blank out
      have hdata : data.zeroAaguid.toBytes = a.authData := by
        rw [AuthenticatorData.zeroAaguid_of_none hc, (AuthenticatorData.of_parse hparse).1]
      cases conveyance with
      | direct => exact hsame rfl rfl
      | none | indirect => exact hsame (anonymize_of_parse hparse) hdata

/-- A credential is made of every attestation with an attested credential, whatever the conveyance. -/
theorem ofAttestation_of_attestedId {id : Bytes} (h : attestedId a.authData = .ok id) (conveyance : Conveyance) :
    ofAttestation a conveyance = .ok ⟨id, .attestation (conveyed a conveyance)⟩ := by
  obtain ⟨data, c, hparse, hc, -⟩ := attestedId_eq_ok_iff.mp h
  have hblanked : anonymize a = .ok (.none (blankModel a.authData)) := by
    rw [anonymize_of_parse hparse, AuthenticatorData.toBytes_zeroAaguid hc, (AuthenticatorData.of_parse hparse).1]
  have hid (b : Attestation) (hconvey : convey a conveyance = .ok b) (hb : attestedId b.authData = .ok id) :
      ofAttestation a conveyance = .ok ⟨id, .attestation b⟩ := by
    rw [ofAttestation_of_convey hconvey, hb]
    rfl
  cases conveyance with
  | direct => exact hid a rfl h
  | none | indirect => exact hid _ hblanked (attestedId_blankModel h)

/-- The conveyance decides what of the attestation is left, and nothing else. -/
theorem ofAttestation_eq (a : Attestation) (conveyance : Conveyance) :
    ofAttestation a conveyance = (attestedId a.authData).map (⟨·, .attestation (conveyed a conveyance)⟩) := by
  cases h : attestedId a.authData with
  | error e => exact ofAttestation_of_error h conveyance
  | ok id => exact ofAttestation_of_attestedId h conveyance

theorem attestedId_of_ofAttestation {p : PublicKeyCredential} {conveyance : Conveyance}
    (h : ofAttestation a conveyance = .ok p) :
    ∃ id, attestedId a.authData = .ok id ∧ p = ⟨id, .attestation (conveyed a conveyance)⟩ := by
  rw [ofAttestation_eq] at h
  cases hid : attestedId a.authData with
  | error e =>
    rw [hid] at h
    cases h
  | ok id =>
    rw [hid] at h
    cases h
    exact ⟨id, rfl, rfl⟩

/-- **Only the model is blanked out.** Without conveyance and with an indirect one a relying party gets the same. All
conveyances fail on the same attestations, with the same error, and the credentials they make have the same identifier.
A direct conveyance leaves the attestation as it is. Without conveyance there is an empty statement, and of the bytes
only those of the model may be different: they are zero. Conveying once more changes nothing. -/
theorem ofAttestation_frame (a : Attestation) :
    ofAttestation a .none = ofAttestation a .indirect ∧
      (∀ c c' : Conveyance, (ofAttestation a c).map rawId = (ofAttestation a c').map rawId) ∧
      (∀ p, ofAttestation a .direct = .ok p → p.response = .attestation a) ∧
      ∀ p, ofAttestation a .none = .ok p → ∃ authData : Bytes,
        p.response = .attestation ⟨"none", authData, .map []⟩ ∧ authData.length = a.authData.length ∧
          (∀ i, authData[i]? = if 37 ≤ i ∧ i < 53 then some 0 else a.authData[i]?) ∧
          ofAttestation ⟨"none", authData, .map []⟩ .none = .ok p := by
  refine ⟨?_, ?_, ?_, ?_⟩
  · rw [ofAttestation_eq, ofAttestation_eq]
    rfl
  · intro c c'
    rw [ofAttestation_eq, ofAttestation_eq]
    cases attestedId a.authData <;> rfl
  · intro p hp
    obtain ⟨id, -, rfl⟩ := attestedId_of_ofAttestation hp
    rfl
  · intro p hp
    obtain ⟨id, hid, rfl⟩ := attestedId_of_ofAttestation hp
    have hlength := le_length_of_attestedId hid
    refine ⟨blankModel a.authData, rfl, length_blankModel hlength, getElem?_blankModel hlength, ?_⟩
    have hagain := ofAttestation_of_attestedId (a := .none (blankModel a.authData)) (attestedId_blankModel hid) .none
    simpa only [conveyed, Attestation.none, blankModel_blankModel hlength] using hagain

/-- Neither the key nor the extensions behind the model move. -/
theorem ofAttestation_frame_packed :
    let front : Bytes := List.replicate 32 0x33 ++ [0xc1, 0x00, 0x00, 0x00, 0x01]
    let rest : Bytes := [0x00, 0x02, 0xc1, 0xc2, 0xa1, 0x01, 0x02, 0xa0]
    let packed : Attestation := ⟨"packed", front ++ List.replicate 16 0xee ++ rest, .map [(.text "sig", .bytes [0x30])]⟩
    let blanked : Attestation := ⟨"none", front ++ List.replicate 16 0x00 ++ rest, .map []⟩
    ofAttestation packed .none = .ok ⟨[0xc1, 0xc2], .attestation blanked⟩ ∧
      ofAttestation packed .direct = .ok ⟨[0xc1, 0xc2], .attestation packed⟩ ∧
      ofAttestation packed .indirect = .ok ⟨[0xc1, 0xc2], .attestation blanked⟩ ∧
      ofAttestation blanked .none = .ok ⟨[0xc1, 0xc2], .attestation blanked⟩ := by
  intro front rest packed blanked
  obtain ⟨hindirect, -, -, hnone⟩ := ofAttestation_frame packed
  have hid : attestedId packed.authData = .ok [0xc1, 0xc2] := by cbv
  have hblanked : ofAttestation packed .none = .ok ⟨[0xc1, 0xc2], .attestation blanked⟩ :=
    ofAttestation_of_attestedId hid .none
  obtain ⟨authData, hresponse, -, -, hagain⟩ := hnone _ hblanked
  rw [← CredentialResponse.attestation.inj hresponse] at hagain
  exact ⟨hblanked, ofAttestation_of_attestedId hid .direct, hindirect ▸ hblanked, hagain⟩

end Fido.PublicKeyCredential

end SecurityKey
