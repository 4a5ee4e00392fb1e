import SecurityKey.Piv.Signature
import SecurityKey.Proofs.Piv.Tlv

/-!
# Templates for signatures

- a digest is padded exactly for the moduli that leave room for eight bytes of padding (`padBlock_eq_ok_iff`,
  `exists_padBlock_iff`);
- a template for signing holds an empty place for the answer and the challenge, and nothing else
  (`spells_of_signatureTemplate`);
- a signature is read from the first place for answers in a template (`readSignature_spellAll`).
-/

namespace SecurityKey.Piv

open Action (bind_eq_ok_iff)

variable {hash block out : Bytes} {algorithm : HashAlgorithm} {key : KeyAlgorithm} {bits : Nat}

/-! ## Padding -/

/-- The bytes are a digest with its algorithm, as a DER sequence: a sequence that identifies the algorithm, and the
digest as an octet string. -/
def IsDigestInfo (hash info : Bytes) : Prop :=
  ∃ algorithm identifier digest, IsTagged 0x30 identifier algorithm ∧ IsTagged 0x04 hash digest ∧
    IsTagged 0x30 (algorithm ++ digest) info

/-- A header makes a digest of its size to a sequence. -/
theorem isDigestInfo_header (h : hash.length = algorithm.size) : IsDigestInfo hash (algorithm.header ++ hash) := by
  obtain ⟨identifier, hheader, hshort⟩ : ∃ identifier : Bytes,
      algorithm.header = 0x30 :: .ofNat (identifier.length + algorithm.size + 4) ::
        (0x30 :: .ofNat identifier.length :: identifier ++ [0x04, .ofNat algorithm.size]) ∧
      identifier.length + algorithm.size + 4 < 0x80 := by
    refine ⟨(algorithm.header.drop 4).take (algorithm.header.length - 6), ?_⟩
    cases algorithm <;> decide
  refine ⟨0x30 :: .ofNat identifier.length :: identifier, identifier, 0x04 :: .ofNat hash.length :: hash,
    isTagged_short 0x30 (by omega), isTagged_short 0x04 (by omega), ?_⟩
  have hlength :
      (0x30 :: UInt8.ofNat identifier.length :: identifier ++ 0x04 :: UInt8.ofNat hash.length :: hash).length =
        identifier.length + algorithm.size + 4 := by
    simp only [List.length_append, List.length_cons, h]
    omega
  have hinside := isTagged_short 0x30 (hlength ▸ hshort)
  rw [hlength, h] at hinside
  rw [hheader, h]
  simpa using hinside

/-- The block of `k` bytes holds a digest behind its header, a zero, at least eight bytes of padding and the two bytes
of the block type. -/
def IsPadded (hash : Bytes) (algorithm : HashAlgorithm) (k : Nat) (block : Bytes) : Prop :=
  block.length = k ∧
    ∃ m, 8 ≤ m ∧ block = [0x00, 0x01] ++ List.replicate m 0xff ++ 0x00 :: (algorithm.header ++ hash)

/-- A block is padded to the length of the modulus, or not at all. -/
theorem padBlock_eq_ok_iff :
    padBlock hash algorithm bits = .ok block ↔ IsPadded hash algorithm (bits / 8) block := by
  unfold padBlock
  simp only
  constructor
  · intro h
    split at h
    · cases h
    · cases h
      refine ⟨?_, _, ?_, rfl⟩
      · simp only [List.length_append, List.length_cons, List.length_nil, List.length_replicate] at *
        omega
      · omega
  · rintro ⟨hlength, m, hm, rfl⟩
    have hk : bits / 8 = m + (algorithm.header ++ hash).length + 3 := by
      rw [← hlength]
      simp only [List.length_append, List.length_cons, List.length_nil, List.length_replicate]
      omega
    rw [if_neg (by omega), hk]
    have hm : m + (algorithm.header ++ hash).length + 3 - (algorithm.header ++ hash).length - 3 = m := by omega
    rw [hm]

/-- Exactly the moduli are refused that are too small for eight bytes of padding. -/
theorem exists_padBlock_iff :
    (∃ block, padBlock hash algorithm bits = .ok block) ↔ algorithm.header.length + hash.length + 11 ≤ bits / 8 := by
  have hinfo : (algorithm.header ++ hash).length = algorithm.header.length + hash.length := List.length_append
  unfold padBlock
  simp only
  split
  · rename_i h
    constructor
    · rintro ⟨block, hblock⟩
      cases hblock
    · intro hlarge
      omega
  · exact ⟨fun _ => by omega, fun _ => ⟨_, rfl⟩⟩

/-! ## Templates for signing -/

/-- What a key signs: the digest itself on a curve, and a padded block as long as the modulus for RSA. -/
def IsChallenge (hash : Bytes) (algorithm : HashAlgorithm) (key : KeyAlgorithm) (block : Bytes) : Prop :=
  match key.modulusBits? with
  | none => block = hash
  | some bits => IsPadded hash algorithm (bits / 8) block

theorem challenge_eq_ok_iff : challenge hash algorithm key = .ok block ↔ IsChallenge hash algorithm key block := by
  unfold challenge IsChallenge
  cases key.modulusBits? with
  | none => exact ⟨fun h => (Except.ok.inj h).symm, fun h => congrArg _ h.symm⟩
  | some bits => exact padBlock_eq_ok_iff

/-- Every modulus leaves room for every digest. -/
theorem exists_challenge (h : hash.length = algorithm.size) (key : KeyAlgorithm) :
    ∃ block, challenge hash algorithm key = .ok block ∧ block.length ≤ 256 := by
  have hroom : algorithm.header.length + algorithm.size + 11 ≤ 128 := by cases algorithm <;> decide
  have hpad : ∀ bits, 1024 ≤ bits → bits ≤ 2048 →
      ∃ block, padBlock hash algorithm bits = .ok block ∧ block.length ≤ 256 := by
    intro bits hlow hhigh
    have hlarge : algorithm.header.length + hash.length + 11 ≤ bits / 8 := by omega
    obtain ⟨block, hblock⟩ := exists_padBlock_iff.mpr hlarge
    have hlength := (padBlock_eq_ok_iff.mp hblock).1
    exact ⟨block, hblock, by omega⟩
  cases key with
  | rsa1024 => exact hpad 1024 (by decide) (by decide)
  | rsa2048 => exact hpad 2048 (by decide) (by decide)
  | p256 | p384 => exact ⟨hash, rfl, by omega⟩

/-- The bytes are a template and nothing else, with an empty place for the answer and the challenge, and nothing else,
in it. -/
def IsTemplate (block out : Bytes) : Prop :=
  ∃ contents, Tlv.Spells ⟨templateTag, contents⟩ out ∧ Tlv.SpellAll [⟨responseTag, []⟩, ⟨challengeTag, block⟩] contents

/-- A digest of the right length is put into a template. -/
theorem exists_signatureTemplate (h : hash.length = algorithm.size) (key : KeyAlgorithm) :
    ∃ block out, signatureTemplate hash algorithm key = .ok out ∧ IsChallenge hash algorithm key block ∧
      IsTemplate block out := by
  obtain ⟨block, hblock, hshort⟩ := exists_challenge h key
  obtain ⟨answer, hanswer, ha⟩ := Tlv.exists_encode (t := ⟨responseTag, []⟩) (Nat.zero_le _)
  obtain ⟨question, hquestion, hq⟩ := Tlv.exists_encode (t := ⟨challengeTag, block⟩)
    (show block.length ≤ 65535 by omega)
  have hinside : Tlv.SpellAll [⟨responseTag, []⟩, ⟨challengeTag, block⟩] (answer ++ question) := by
    have hlast := Tlv.SpellAll.cons hq .nil
    rw [List.append_nil] at hlast
    exact .cons ha hlast
  have hlength : (answer ++ question).length ≤ 65535 := by
    have := ha.length_le
    have := hq.length_le
    simp only [List.length_append, List.length_nil] at *
    omega
  obtain ⟨out, hout, ho⟩ := Tlv.exists_encode (t := ⟨templateTag, answer ++ question⟩) hlength
  refine ⟨block, out, ?_, challenge_eq_ok_iff.mp hblock, answer ++ question, ho, hinside⟩
  rw [signatureTemplate, if_neg (fun hne => hne h), hanswer, hblock]
  show Tlv.encode ⟨challengeTag, block⟩ >>= (fun question => Tlv.encode ⟨templateTag, answer ++ question⟩) = .ok out
  rw [hquestion]
  exact hout

/-- Other digests are refused. -/
theorem length_of_signatureTemplate (h : signatureTemplate hash algorithm key = .ok out) :
    hash.length = algorithm.size := by
  by_cases hlength : hash.length = algorithm.size
  · exact hlength
  · rw [signatureTemplate, if_pos hlength] at h
    cases h

/-! ## Reading signatures -/

/-- The signature is what is in the first place for answers. -/
theorem readSignature_spellAll {ts : List Tlv} {contents template : Bytes} (ht : Tlv.SpellAll ts contents)
    (h : Tlv.Spells ⟨templateTag, contents⟩ template) (tail : Bytes) :
    readSignature (template ++ tail) =
      match ts.find? fun t => t.tag = responseTag with
      | some t => .ok t.value
      | none => .error (.protocol "malformed signature TLV, no 82 tag") := by
  rw [readSignature, Tlv.read_of_spells h]
  simp only [bind, Except.bind, ne_eq, not_true_eq_false, if_false, Tlv.find?_spellAll ht]
  cases ts.find? fun t => t.tag = responseTag <;> rfl

/-- Templates are written and read exactly: what is tagged is read back with what follows it left over; a digest of the
right length is put into one template, as it is or padded to the length of the modulus with its header; padding refuses
exactly the moduli that are too small; and among whatever tagged data the first answer is the signature, found by a loop
that ends on every input. -/
theorem templates_exact :
    (∀ (tag : UInt8) (value tail : Bytes), value.length ≤ 65535 →
      ∃ octets, Tlv.encodeLength value.length = .ok octets ∧
        Tlv.read (tag :: octets ++ value ++ tail) = .ok (⟨tag, value⟩, tail)) ∧
    (∀ hash algorithm key, (∃ out, signatureTemplate hash algorithm key = .ok out) ↔ hash.length = algorithm.size) ∧
    (∀ hash algorithm key out, signatureTemplate hash algorithm key = .ok out →
      ∃ block, IsChallenge hash algorithm key block ∧ IsTemplate block out ∧
        IsDigestInfo hash (algorithm.header ++ hash)) ∧
    (∀ hash algorithm bits,
      (∀ block, padBlock hash algorithm bits = .ok block ↔ IsPadded hash algorithm (bits / 8) block) ∧
      ((∃ block, padBlock hash algorithm bits = .ok block) ↔ algorithm.header.length + hash.length + 11 ≤ bits / 8)) ∧
    (∀ ts contents template tail, Tlv.SpellAll ts contents → Tlv.Spells ⟨templateTag, contents⟩ template →
      readSignature (template ++ tail) =
        match ts.find? fun t => t.tag = responseTag with
        | some t => .ok t.value
        | none => .error (.protocol "malformed signature TLV, no 82 tag")) ∧
    ∀ tag (input : Bytes), Tlv.scan tag ((input.length + 1) / 2) input = some (Tlv.find? tag input) := by
  refine ⟨?_, ?_, ?_, ?_, fun _ _ _ tail ht h => readSignature_spellAll ht h tail, ?_⟩
  · intro tag value tail h
    obtain ⟨octets, hwrite, ho⟩ := Tlv.exists_encodeLength h
    exact ⟨octets, hwrite, Tlv.read_of_spells (t := ⟨tag, value⟩) ⟨octets, ho, rfl⟩ tail⟩
  · intro hash algorithm key
    constructor
    · rintro ⟨out, h⟩
      exact length_of_signatureTemplate h
    · intro h
      obtain ⟨block, out, hout, -, -⟩ := exists_signatureTemplate h key
      exact ⟨out, hout⟩
  · intro hash algorithm key out h
    have hlength := length_of_signatureTemplate h
    obtain ⟨block, out', hout, hchallenge, htemplate⟩ := exists_signatureTemplate hlength key
    obtain rfl : out' = out := Except.ok.inj (hout.symm.trans h)
    exact ⟨block, hchallenge, htemplate, isDigestInfo_header hlength⟩
  · intro hash algorithm bits
    exact ⟨fun block => padBlock_eq_ok_iff, exists_padBlock_iff⟩
  · intro tag input
    exact Tlv.scan_eq (by omega)

/-- A digest for a curve, and a template with a challenge in front of the answer, whose length takes a byte more than it
needs. -/
theorem templates_exact_curve :
    (∃ octets, Tlv.encodeLength 2 = .ok octets ∧
      Tlv.read (0x82 :: octets ++ [7, 8] ++ [9]) = .ok (⟨0x82, [7, 8]⟩, [9])) ∧
    (∃ out, signatureTemplate (List.replicate 32 0xab) .sha256 .p256 = .ok out ∧
      ∃ block, block = List.replicate 32 0xab ∧ IsTemplate block out) ∧
    readSignature [0x7c, 0x06, 0x81, 0x00, 0x82, 0x81, 0x01, 0xaa, 0xff] = .ok [0xaa] := by
  obtain ⟨hread, haccept, htemplate, -, hsignature, -⟩ := templates_exact
  obtain ⟨out, hout⟩ := (haccept (List.replicate 32 0xab) .sha256 .p256).mpr rfl
  obtain ⟨block, hblock, hinside, -⟩ := htemplate _ _ _ _ hout
  refine ⟨hread 0x82 [7, 8] [9] (by decide), ⟨out, hout, block, hblock, hinside⟩, ?_⟩
  have hchallenge : Tlv.Spells ⟨0x81, []⟩ [0x81, 0x00] := ⟨_, .short 0x00 (by decide), rfl⟩
  have hanswer : Tlv.Spells ⟨0x82, [0xaa]⟩ [0x82, 0x81, 0x01, 0xaa] := ⟨_, .oneByte 0x01, rfl⟩
  have hall := Tlv.SpellAll.cons hchallenge (.cons hanswer .nil)
  exact hsignature _ _ [0x7c, 0x06, 0x81, 0x00, 0x82, 0x81, 0x01, 0xaa] [0xff] hall ⟨_, .short 0x06 (by decide), rfl⟩

end SecurityKey.Piv
