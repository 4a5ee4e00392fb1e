import SecurityKey.Credential.AuthenticatorData
import SecurityKey.Proofs.Action
import SecurityKey.Proofs.Cbor.Extension

/-!
# Authenticator data written and read back

The length of the attested key is not written anywhere: the key is one item, and reading the item measures it.

- bytes are parsed to data exactly when the data are written as these bytes, the flags announce the parts there are,
  and the key is measured with its own length in front of what follows it (`AuthenticatorData.parse_eq_ok_iff`);
- data are well-formed when their flags announce their parts and the key is an item by itself; such data are read back
  whatever extensions follow the key (`AuthenticatorData.parse_toBytes`);
- so parsing and writing lose nothing in either direction (`AuthenticatorData.parse_toBytes_inverse`).
-/

namespace SecurityKey.Credential

open Action (bind_eq_ok_iff)

/-- The key of an attested credential is an item, and its identifier has a length that can be written. -/
structure AttestedCredential.WellFormed (c : AttestedCredential) : Prop where
  short : c.id.length < 2 ^ 16
  key : ∃ v, Cbor.decode c.publicKey = .ok v

namespace AuthenticatorData

/-- The flags announce the parts that there are. -/
structure WellFormed (a : AuthenticatorData) : Prop where
  attested : hasFlag a.flags attestedFlag = a.credential.isSome
  extended : hasFlag a.flags extensionsFlag = a.extensions.isSome
  credential : ∀ c, a.credential = some c → c.WellFormed

/-! ## The credential -/

theorem take_eq_ok_iff {part : String} {n : Nat} {input rest : Bytes} {front : Bytes.Sized n} :
    take part n input = .ok (front, rest) ↔ front.val ++ rest = input := by
  unfold take
  constructor
  · intro h
    split at h
    · cases h
      exact List.take_append_drop n input
    · cases h
  · rintro rfl
    obtain ⟨front, rfl⟩ := front
    simp

/-- The identifier and the key of a credential have lengths that can be told: that of the identifier is written in two
bytes, and the key is measured in front of the rest. -/
structure Measured (c : AttestedCredential) (rest : Bytes) : Prop where
  short : c.id.length < 2 ^ 16
  key : ∃ v, Cbor.decodePrefix (c.publicKey ++ rest) = .ok (v, c.publicKey.length)

/-- What is parsed is written at the front of the input. -/
theorem of_parseCredential {c : AttestedCredential} {input rest : Bytes} (h : parseCredential input = .ok (c, rest)) :
    credentialBytes c ++ rest = input ∧ Measured c rest := by
  unfold parseCredential at h
  obtain ⟨⟨front, afterFront⟩, hfront, hparts⟩ := bind_eq_ok_iff.mp h
  obtain ⟨⟨id, afterId⟩, hid, hlast⟩ := bind_eq_ok_iff.mp hparts
  obtain ⟨⟨v, n⟩, hkey, hmade⟩ := bind_eq_ok_iff.mp hlast
  cases hmade
  rw [take_eq_ok_iff] at hfront hid
  subst hid hfront
  have hlength : (front.val.drop 16).length = 2 := by simp [front.property]
  have hlt : Bytes.toNat (front.val.drop 16) < 256 ^ 2 := hlength ▸ Bytes.toNat_lt (front.val.drop 16)
  have hwrite : Bytes.ofNat 2 (Bytes.toNat (front.val.drop 16)) = front.val.drop 16 :=
    hlength ▸ Bytes.ofNat_toNat (front.val.drop 16)
  have htake : (afterId.take n).length = n := List.length_take_of_le (Cbor.le_length_of_decodePrefix hkey)
  constructor
  · simp only [credentialBytes, id.property, hwrite, List.append_assoc, List.take_append_drop]
  · refine ⟨by rwa [id.property], v, ?_⟩
    rwa [List.take_append_drop, htake]

/-- What is written at the front of the input is parsed. -/
theorem parseCredential_append {c : AttestedCredential} {rest : Bytes} (h : Measured c rest) :
    parseCredential (credentialBytes c ++ rest) = .ok (c, rest) := by
  obtain ⟨hshort, v, hkey⟩ := h
  let front : Bytes.Sized 18 := ⟨c.aaguid.val ++ Bytes.ofNat 2 c.id.length, by simp [c.aaguid.property]⟩
  have hlength : Bytes.toNat (front.val.drop 16) = c.id.length := by
    rw [List.drop_left' c.aaguid.property, Bytes.toNat_ofNat]
    exact Nat.mod_eq_of_lt hshort
  have haaguid : front.val.take 16 = c.aaguid.val := List.take_left' c.aaguid.property
  have hbytes : credentialBytes c ++ rest = front.val ++ (c.id ++ (c.publicKey ++ rest)) := by
    simp only [credentialBytes, List.append_assoc, front]
  have hfront : take "attested credential data" 18 (credentialBytes c ++ rest) =
      .ok (front, c.id ++ (c.publicKey ++ rest)) := take_eq_ok_iff.mpr hbytes.symm
  have hid : take "credential id" (Bytes.toNat (front.val.drop 16)) (c.id ++ (c.publicKey ++ rest)) =
      .ok (⟨c.id, hlength.symm⟩, c.publicKey ++ rest) := take_eq_ok_iff.mpr rfl
  unfold parseCredential
  simp only [hfront, hid, hkey, bind, Except.bind, haaguid, List.take_left, List.drop_left]
  rfl

/-! ## The data -/

/-- The bytes in front of the parts that the flags announce. -/
def headerBytes (rpIdHash : Bytes.Sized 32) (flags : UInt8) (signCount : UInt32) : Bytes :=
  rpIdHash.val ++ ([flags] ++ Bytes.ofNat 4 signCount.toNat)

theorem toBytes_eq (a : AuthenticatorData) : a.toBytes = headerBytes a.rpIdHash a.flags a.signCount ++
    ((a.credential.map credentialBytes).getD [] ++ a.extensions.getD []) := by
  simp only [toBytes, headerBytes, List.append_assoc]

/-- Every 37 bytes are a header. -/
theorem headerBytes_of_sized (header : Bytes.Sized 37) {rpIdHash : Bytes.Sized 32}
    (h : rpIdHash.val = header.val.take 32) : headerBytes rpIdHash (header.val.getD 32 0)
      (UInt32.ofNat (Bytes.toNat (header.val.drop 33))) = header.val := by
  have hlength := header.property
  have hcount : (header.val.drop 33).length = 4 := by simp [hlength]
  have hlt : Bytes.toNat (header.val.drop 33) < 2 ^ 32 := by
    have := Bytes.toNat_lt (header.val.drop 33)
    rwa [hcount] at this
  have hwrite : Bytes.ofNat 4 (Bytes.toNat (header.val.drop 33)) = header.val.drop 33 :=
    hcount ▸ Bytes.ofNat_toNat (header.val.drop 33)
  have hflags : [header.val.getD 32 0] ++ header.val.drop 33 = header.val.drop 32 := by
    have hmore : 32 < header.val.length := by omega
    rw [List.drop_eq_getElem_cons hmore, List.getD_eq_getElem?_getD, List.getElem?_eq_getElem hmore]
    rfl
  rw [headerBytes, UInt32.toNat_ofNat', Nat.mod_eq_of_lt hlt, hwrite, hflags, h, List.take_append_drop]

/-- The flags announce the parts that there are, and the credential is measured in front of the extensions. -/
structure Announced (a : AuthenticatorData) : Prop where
  attested : hasFlag a.flags attestedFlag = a.credential.isSome
  extended : hasFlag a.flags extensionsFlag = a.extensions.isSome
  measured : ∀ c, a.credential = some c → Measured c (a.extensions.getD [])

variable {a : AuthenticatorData} {input : Bytes}

/-- The extensions are all of the rest, and without them there is no rest. -/
theorem of_extensions {rpIdHash : Bytes.Sized 32} {flags : UInt8} {signCount : UInt32}
    {credential : Option AttestedCredential} {rest : Bytes}
    (h : (if hasFlag flags extensionsFlag then .ok ⟨rpIdHash, flags, signCount, credential, some rest⟩
      else if rest.isEmpty then .ok ⟨rpIdHash, flags, signCount, credential, none⟩
      else .error (Cbor.Error.trailingBytes rest.length)) = Except.ok a) :
    ∃ extensions, a = ⟨rpIdHash, flags, signCount, credential, extensions⟩ ∧ extensions.getD [] = rest ∧
      hasFlag flags extensionsFlag = extensions.isSome := by
  split at h
  · rename_i hflag
    cases h
    exact ⟨_, rfl, rfl, hflag⟩
  · rename_i hflag
    split at h
    · rename_i hempty
      cases h
      cases List.isEmpty_iff.mp hempty
      exact ⟨_, rfl, rfl, Bool.eq_false_iff.mpr hflag⟩
    · cases h

/-- What is parsed is written as the input. -/
theorem of_parse (h : parse input = .ok a) : a.toBytes = input ∧ a.Announced := by
  unfold parse at h
  obtain ⟨⟨header, afterHeader⟩, hheader, hparts⟩ := bind_eq_ok_iff.mp h
  rw [← take_eq_ok_iff.mp hheader]
  simp only at hparts
  split at hparts
  · rename_i hflag
    obtain ⟨⟨c, rest⟩, hcredential, hlast⟩ := bind_eq_ok_iff.mp hparts
    obtain ⟨hwritten, hmeasured⟩ := of_parseCredential hcredential
    obtain ⟨extensions, rfl, rfl, hextended⟩ := of_extensions hlast
    constructor
    · rw [toBytes_eq, headerBytes_of_sized header rfl, ← hwritten]
      rfl
    · refine ⟨hflag, hextended, ?_⟩
      rintro c ⟨⟩
      exact hmeasured
  · rename_i hflag
    obtain ⟨extensions, rfl, rfl, hextended⟩ := of_extensions hparts
    constructor
    · rw [toBytes_eq, headerBytes_of_sized header rfl]
      rfl
    · exact ⟨Bool.eq_false_iff.mpr hflag, hextended, nofun⟩

/-- What is written is parsed. -/
theorem parse_of_announced (h : a.Announced) : parse a.toBytes = .ok a := by
  obtain ⟨rpIdHash, flags, signCount, credential, extensions⟩ := a
  obtain ⟨hattested, hextended, hmeasured⟩ := h
  simp only at hattested hextended hmeasured
  let header : Bytes.Sized 37 := ⟨headerBytes rpIdHash flags signCount, by simp [headerBytes, rpIdHash.property]⟩
  have hhash : header.val.take 32 = rpIdHash.val := List.take_left' rpIdHash.property
  have hflags : header.val.getD 32 0 = flags := by
    have hafter : header.val.drop 32 = [flags] ++ Bytes.ofNat 4 signCount.toNat := List.drop_left' rpIdHash.property
    rw [List.getD_eq_getElem?_getD, ← List.head?_drop, hafter]
    rfl
  have hcount : UInt32.ofNat (Bytes.toNat (header.val.drop 33)) = signCount := by
    have hafter : header.val.drop 33 = Bytes.ofNat 4 signCount.toNat := by
      have hlength : (rpIdHash.val ++ [flags]).length = 33 := by simp [rpIdHash.property]
      simp only [header, headerBytes, ← List.append_assoc]
      exact List.drop_left' hlength
    have hlt : signCount.toNat < 256 ^ 4 := signCount.toNat_lt
    rw [hafter, Bytes.toNat_ofNat, Nat.mod_eq_of_lt hlt, UInt32.ofNat_toNat]
  have hheader : take "header" 37 (toBytes ⟨rpIdHash, flags, signCount, credential, extensions⟩) =
      .ok (header, (credential.map credentialBytes).getD [] ++ extensions.getD []) :=
    take_eq_ok_iff.mpr (toBytes_eq ⟨rpIdHash, flags, signCount, credential, extensions⟩).symm
  unfold parse
  simp only [hheader, bind, Except.bind, hhash, hflags, hcount, hattested, hextended]
  cases credential with
  | none => cases extensions <;> rfl
  | some c =>
    simp only [Option.isSome_some, if_true, Option.map_some, Option.getD_some,
      parseCredential_append (hmeasured c rfl)]
    cases extensions <;> rfl

/-- Bytes are parsed to data exactly when the data are written so, with the parts announced and the key measured. -/
theorem parse_eq_ok_iff : parse input = .ok a ↔ a.toBytes = input ∧ a.Announced := by
  constructor
  · exact of_parse
  · rintro ⟨rfl, h⟩
    exact parse_of_announced h

/-- A key that is an item by itself is measured in front of any extensions. -/
theorem WellFormed.announced (h : a.WellFormed) : a.Announced := by
  refine ⟨h.attested, h.extended, fun c hc => ?_⟩
  obtain ⟨hshort, v, hkey⟩ := h.credential c hc
  exact ⟨hshort, v, Cbor.decodePrefix_extend (Cbor.decode_eq_ok_iff.mp hkey) _⟩

/-- Well-formed data are read back. -/
theorem parse_toBytes (h : a.WellFormed) : parse a.toBytes = .ok a :=
  parse_of_announced h.announced

/-- **Parsing and writing lose nothing.** Whatever bytes are parsed are those that the data are written as, and
well-formed data are parsed from what they are written as. -/
theorem parse_toBytes_inverse :
    (∀ (input : Bytes) (a : AuthenticatorData), parse input = .ok a → a.toBytes = input) ∧
      ∀ a : AuthenticatorData, a.WellFormed → parse a.toBytes = .ok a := by
  constructor
  · intro input a h
    exact (parse_eq_ok_iff.mp h).1
  · intro a h
    exact parse_toBytes h

/-- The break byte that ends both the byte string and the array of the key is not taken for another one behind it. -/
theorem parse_toBytes_inverse_indefinite :
    let a : AuthenticatorData :=
      ⟨.zero 32, 0xc1, 7, some ⟨.zero 16, [0x01], [0x9f, 0x5f, 0x41, 0xaa, 0xff]⟩, some [0xff]⟩
    let b : Bytes := List.replicate 32 0x00 ++ [0xc1, 0x00, 0x00, 0x00, 0x07] ++ List.replicate 16 0x00 ++
      [0x00, 0x01, 0x01, 0x9f, 0x5f, 0x41, 0xaa, 0xff, 0xff]
    a.WellFormed ∧ parse b = .ok a ∧ a.toBytes = b := by
  obtain ⟨hwritten, hread⟩ := parse_toBytes_inverse
  have hformed : WellFormed
      ⟨.zero 32, 0xc1, 7, some ⟨.zero 16, [0x01], [0x9f, 0x5f, 0x41, 0xaa, 0xff]⟩, some [0xff]⟩ := by
    refine ⟨by decide, by decide, ?_⟩
    rintro c ⟨⟩
    exact ⟨by decide, .array [.bytes [0xaa]], rfl⟩
  have hparsed := hread _ hformed
  exact ⟨hformed, hparsed, hwritten _ _ hparsed⟩

end AuthenticatorData

end SecurityKey.Credential
