import SecurityKey.Proofs.Action
import SecurityKey.Proofs.Fido.RegisterAnswer

/-!
# What the parser of U2F registrations accepts

- the length of a DER sequence is found exactly where one of the three forms of lengths announces it
  (`derLength_eq_ok_iff`);
- an answer is spelled by its parts (`RegisterResponse.Spells`), which it determines (`RegisterResponse.Spells.unique`);
- `RegisterResponse.parseSlicing` takes an answer apart with slices that fail out of range, behind checks that keep
  them in range: they never fail, and the outcome is that of `RegisterResponse.parse`
  (`RegisterResponse.parseSlicing_eq`);
- the parser accepts exactly what parts spell (`RegisterResponse.parse_eq_ok_iff`).
-/

namespace SecurityKey.Fido

open Action (bind_eq_ok_iff)

variable {data rest : Bytes} {k n : Nat}

/-! ## Certificates -/

/-- The bytes are a DER sequence whose length is announced in one of the three forms. -/
def IsSequence (certificate : Bytes) : Prop := ∃ contents, IsTagged 0x30 contents certificate

/-- A length is found exactly where it is announced. -/
theorem derLength_eq_ok_iff :
    derLength data = .ok k ↔
      ∃ n octets rest, LengthOctets n octets ∧ data = 0x30 :: octets ++ rest ∧ k = 1 + octets.length + n := by
  constructor
  · intro h
    unfold derLength at h
    simp only at h
    split at h
    · split at h
      · cases h
      · split at h
        · cases h
          exact ⟨_, _, _, .oneByte _, rfl, rfl⟩
        · cases h
      · split at h
        · cases h
          exact ⟨_, _, _, .twoBytes _ _, rfl, rfl⟩
        · cases h
      · split at h
        · rename_i hshort
          cases h
          exact ⟨_, _, _, .short _ hshort, rfl, rfl⟩
        · cases h
    · cases h
  · rintro ⟨n, octets, rest, h, rfl, rfl⟩
    exact derLength_of_octets h rest

theorem IsSequence.derLength_append {certificate : Bytes} (h : IsSequence certificate) (tail : Bytes) :
    derLength (certificate ++ tail) = .ok certificate.length :=
  h.elim fun _ hcontents => Fido.derLength_append hcontents tail

/-- As many bytes as the length says are a sequence. -/
theorem isSequence_of_derLength {certificate tail : Bytes}
    (h : derLength (certificate ++ tail) = .ok certificate.length) : IsSequence certificate := by
  obtain ⟨n, octets, rest, ho, hbytes, hlength⟩ := derLength_eq_ok_iff.mp h
  have hcertificate : certificate = (0x30 :: octets ++ rest).take certificate.length := by
    rw [← hbytes, List.take_left]
  have hsplit : certificate = 0x30 :: octets ++ rest.take n := by
    have hfront : (0x30 :: octets).length = 1 + octets.length := by rw [List.length_cons, Nat.add_comm]
    rw [hlength, ← hfront, List.take_length_add_append] at hcertificate
    exact hcertificate
  have hn : (rest.take n).length = n := by
    have := congrArg List.length hsplit
    simp only [List.cons_append, List.length_cons, List.length_append] at this
    omega
  exact ⟨rest.take n, octets, by rwa [hn], hsplit⟩

namespace RegisterResponse

variable {b : Bytes} {r r' : RegisterResponse}

/-! ## Answers and their parts -/

/-- The bytes are a registration with the given parts: the reserved byte, the public key, the length of the key handle
in one byte, the key handle, the certificate and the signature. -/
structure Spells (r : RegisterResponse) (b : Bytes) : Prop where
  publicKey : r.publicKey.length = 65
  keyHandle : r.keyHandle.length ≤ 255
  certificate : IsSequence r.certificate
  signature : 70 ≤ r.signature.length ∧ r.signature.length ≤ 73
  bytes : b = 0x05 :: r.publicKey ++ UInt8.ofNat r.keyHandle.length :: r.keyHandle ++ r.certificate ++ r.signature

theorem take_eq_ok_iff {part : String} {front : Bytes} :
    take part n data = .ok (front, rest) ↔ data = front ++ rest ∧ front.length = n := by
  rw [← Bytes.split?_eq_some_iff, take]
  cases Bytes.split? n data <;> simp

/-- Parts are found in what they spell. -/
theorem parse_of_spells (h : r.Spells b) : parse b = .ok r := by
  rw [h.bytes]
  exact parse_of_derLength h.publicKey h.keyHandle (h.certificate.derLength_append _) h.signature

/-- A point and the byte behind it. -/
theorem exists_point (h : 66 ≤ data.length) :
    ∃ point l rest, data = point ++ l :: rest ∧ point.length = 65 := by
  have hmore : 65 < data.length := h
  refine ⟨data.take 65, data[65], data.drop 66, ?_, List.length_take_of_le (by omega)⟩
  rw [← List.drop_eq_getElem_cons hmore, List.take_append_drop]

/-- What is found spells the input. -/
theorem spells_of_parse (h : parse b = .ok r) : r.Spells b := by
  cases b with
  | nil => cases h
  | cons id rest =>
    rw [parse] at h
    split at h
    · cases h
    rename_i hid
    obtain ⟨⟨front, afterFront⟩, hfront, h⟩ := bind_eq_ok_iff.mp h
    obtain ⟨⟨keyHandle, afterHandle⟩, hhandle, h⟩ := bind_eq_ok_iff.mp h
    obtain ⟨k, hk, h⟩ := bind_eq_ok_iff.mp h
    obtain ⟨⟨certificate, signature⟩, hcertificate, h⟩ := bind_eq_ok_iff.mp h
    simp only at hhandle hk h
    split at h
    · rename_i hsignature
      cases h
      rw [take_eq_ok_iff] at hfront hhandle hcertificate
      obtain ⟨rfl, hfront⟩ := hfront
      obtain ⟨rfl, hhandle⟩ := hhandle
      obtain ⟨rfl, rfl⟩ := hcertificate
      obtain ⟨point, l, more, rfl, hpoint⟩ := exists_point (Nat.le_of_eq hfront.symm)
      obtain rfl : more = [] := by
        rw [List.length_append, List.length_cons, hpoint] at hfront
        exact List.eq_nil_of_length_eq_zero (by omega)
      rw [toNat_drop_point hpoint] at hhandle
      have hl : UInt8.ofNat keyHandle.length = l := by rw [hhandle, UInt8.ofNat_toNat]
      refine ⟨by rwa [List.take_left' hpoint], ?_, isSequence_of_derLength hk, hsignature, ?_⟩
      · have := l.toNat_lt
        show keyHandle.length ≤ 255
        omega
      · show id :: (point ++ [l] ++ (keyHandle ++ (certificate ++ signature))) = _
        rw [Decidable.not_not.mp hid, hl, List.take_left' hpoint]
        simp only [List.append_assoc, List.cons_append, List.nil_append]
    · cases h

/-- The parser accepts exactly what parts spell. -/
theorem parse_eq_ok_iff : parse b = .ok r ↔ r.Spells b :=
  ⟨spells_of_parse, parse_of_spells⟩

/-- Bytes are spelled by one choice of parts at most. -/
theorem Spells.unique (h : r.Spells b) (h' : r'.Spells b) : r = r' :=
  Except.ok.inj ((parse_of_spells h).symm.trans (parse_of_spells h'))

/-! ## Slices out of range -/

/-- The complaint that the named part is cut short. -/
def truncated (part : String) : Error := .protocol ("register response truncated in " ++ part)

/-- How long the DER sequence at the front of the data is, found by indices. There is no outcome when one of those
that are not checked is out of range. -/
def derLengthIndexing (data : Bytes) : Option (Except Error Nat) :=
  let truncated := .error (.protocol "attestation certificate header truncated")
  if data.head? ≠ some 0x30 then some (.error (.protocol "attestation certificate is not a DER sequence"))
  else
    match data[1]? with
    | none => some truncated
    | some n =>
      if n < 0x80 then some (.ok (2 + n.toNat))
      else if n = 0x81 then
        match data[2]? with
        | none => some truncated
        | some n => some (.ok (3 + n.toNat))
      else if n = 0x82 then
        if data.length < 4 then some truncated
        else do
          let two := (data.drop 2).take 2
          let hi ← two[0]?
          let lo ← two[1]?
          some (.ok (4 + Bytes.toNat [hi, lo]))
      else some (.error (.protocol ("unsupported DER length form " ++ Bytes.toHex [n])))

/-- The parts of an answer, found by slices. There is no outcome when one of them is out of range. -/
def parseSlicing : Bytes → Option (Except Error RegisterResponse)
  | [] => some (.error (.protocol "empty register response"))
  | id :: rest =>
    if id ≠ 0x05 then some (.error (.protocol ("register response starts with " ++ Bytes.toHex [id])))
    else if rest.length < 66 then some (.error (truncated "public key"))
    else do
      let (publicKey, rest) ← Bytes.split? 65 rest
      match rest with
      | [] => some (.error (truncated "key handle"))
      | l :: rest =>
        if rest.length < l.toNat then some (.error (truncated "key handle"))
        else do
          let (keyHandle, rest) ← Bytes.split? l.toNat rest
          match ← derLengthIndexing rest with
          | .error e => some (.error e)
          | .ok k =>
            if rest.length < k then some (.error (truncated "certificate"))
            else do
              let (certificate, signature) ← Bytes.split? k rest
              if 70 ≤ signature.length ∧ signature.length ≤ 73 then
                some (.ok ⟨publicKey, keyHandle, certificate, signature⟩)
              else some (.error (.protocol
                ("register signature has unexpected length " ++ toString signature.length)))

/-- No index of the length is out of range. -/
theorem derLengthIndexing_eq (data : Bytes) : derLengthIndexing data = some (derLength data) := by
  match data with
  | [] => rfl
  | id :: rest =>
    by_cases hid : id = 0x30
    · subst hid
      match rest with
      | [] => rfl
      | n :: rest =>
        by_cases hshort : n < 0x80
        · rw [derLength_short hshort]
          simp [derLengthIndexing, hshort]
        by_cases h81 : n = 0x81
        · subst h81
          cases rest <;> rfl
        by_cases h82 : n = 0x82
        · subst h82
          match rest with
          | [] | [_] => rfl
          | hi :: lo :: rest => simp [derLengthIndexing, derLength]
        · simp [derLengthIndexing, derLength, hshort, h81, h82]
    · simp [derLengthIndexing, derLength, hid]

/-- A part that there is not enough of. -/
theorem take_of_lt {part : String} (h : data.length < n) : take part n data = .error (truncated part) := by
  have hsplit : Bytes.split? n data = none := by
    rw [Bytes.split?, if_neg]
    rw [List.length_take]
    omega
  rw [take, hsplit]
  rfl

/-- A slice behind the check of its length. -/
theorem checked_slice {α : Type} {part : String} {f : Bytes × Bytes → Option (Except Error α)}
    {g : Bytes × Bytes → Except Error α} (hf : ∀ x, f x = some (g x)) :
    (if data.length < n then some (.error (truncated part)) else Bytes.split? n data >>= f) =
      some (take part n data >>= g) := by
  by_cases h : data.length < n
  · rw [if_pos h, take_of_lt h]
    rfl
  · have hsplit : Bytes.split? n data = some (data.take n, data.drop n) :=
      if_pos (List.length_take_of_le (Nat.le_of_not_lt h))
    rw [if_neg h, take, hsplit]
    exact hf _

/-- No slice is out of range. -/
theorem parseSlicing_eq (b : Bytes) : parseSlicing b = some (parse b) := by
  cases b with
  | nil => rfl
  | cons id rest =>
    by_cases hid : id ≠ 0x05
    · rw [parseSlicing, parse, if_pos hid, if_pos hid]
    rw [parseSlicing, parse, if_neg hid, if_neg hid]
    by_cases hshort : rest.length < 66
    · rw [if_pos hshort, take_of_lt hshort]
      rfl
    -- the key and the byte behind it are taken in one cut by the parser, and in two here
    obtain ⟨publicKey, l, rest, rfl, hkey⟩ := exists_point (Nat.le_of_not_lt hshort)
    have hsplit : Bytes.split? 65 (publicKey ++ l :: rest) = some (publicKey, l :: rest) :=
      Bytes.split?_eq_some_iff.mpr ⟨rfl, hkey⟩
    have htake : take "public key" 66 (publicKey ++ l :: rest) = .ok (publicKey ++ [l], rest) :=
      take_eq_ok_iff.mpr ⟨by simp, by simp [hkey]⟩
    have hlength := toNat_drop_point hkey l
    have hpoint : (publicKey ++ [l]).take 65 = publicKey := List.take_left' hkey
    rw [if_neg hshort, hsplit, htake]
    simp only [bind, Option.bind, Except.bind, hlength, hpoint]
    refine checked_slice ?_
    rintro ⟨keyHandle, rest⟩
    simp only [derLengthIndexing_eq]
    cases derLength rest with
    | error e => rfl
    | ok k =>
      refine checked_slice ?_
      rintro ⟨certificate, signature⟩
      simp only
      split <;> rfl

/-- Registrations are parsed exactly: an input is accepted with certain parts when they spell it and not otherwise, no
other parts spell it, and the slices by which it is taken apart are never out of range. -/
theorem parse_exact (b : Bytes) :
    (∀ r, parse b = .ok r ↔ r.Spells b) ∧ (∀ r r' : RegisterResponse, r.Spells b → r'.Spells b → r = r') ∧
      parseSlicing b = some (parse b) :=
  ⟨fun _ => parse_eq_ok_iff, fun _ _ => Spells.unique, parseSlicing_eq b⟩

/-- A certificate may announce a short length in two bytes. -/
theorem parse_exact_long_form :
    let r : RegisterResponse :=
      ⟨List.replicate 65 4, [0xaa, 0xbb], [0x30, 0x82, 0x00, 0x01, 0x5a], List.replicate 70 0x30⟩
    let b : Bytes := 0x05 :: List.replicate 65 4 ++ 2 :: [0xaa, 0xbb] ++ [0x30, 0x82, 0x00, 0x01, 0x5a] ++
      List.replicate 70 0x30
    r.Spells b ∧ parse b = .ok r ∧ parseSlicing b = some (.ok r) := by
  intro r b
  have hcertificate : IsSequence r.certificate := ⟨[0x5a], _, .twoBytes 0x00 0x01, rfl⟩
  have h : r.Spells b := ⟨rfl, by decide, hcertificate, by decide, rfl⟩
  have hparse := ((parse_exact b).1 r).mpr h
  exact ⟨h, hparse, (parse_exact b).2.2.trans (congrArg some hparse)⟩

end RegisterResponse

end SecurityKey.Fido
