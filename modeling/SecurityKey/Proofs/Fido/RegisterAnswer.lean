import SecurityKey.Fido.U2f
import SecurityKey.Proofs.LengthOctets

/-!
# Answers to a U2F registration

- `derSequence`: a certificate as a DER sequence. Its length is found when its contents have at most 65535 bytes
  (`derLength_derSequence`), and the form of the length is refused when they have more (`derLength_long`);
- the answer to a registration is taken apart into what it was put together from (`RegisterResponse.parse_of_derLength`,
  and `RegisterResponse.parse_answer` for the point of a key).
-/

namespace SecurityKey

namespace Bytes

theorem width_of_lt_256 {n : Nat} (h0 : 0 < n) (h : n < 2 ^ 8) : width n = 1 := by
  have hlog : n.log2 < 8 := (Nat.log2_lt (Nat.ne_of_gt h0)).mpr h
  rw [width, if_neg (Nat.ne_of_gt h0)]
  omega

theorem width_of_lt_65536 {n : Nat} (h0 : 2 ^ 8 ≤ n) (h : n < 2 ^ 16) : width n = 2 := by
  have hne : n ≠ 0 := by omega
  have hlow : 8 ≤ n.log2 := (Nat.le_log2 hne).mpr h0
  have hhigh : n.log2 < 16 := (Nat.log2_lt hne).mpr h
  rw [width, if_neg hne]
  omega

end Bytes

namespace Fido

/-! ## Certificates -/

/-- A length in DER: one byte for a small one, otherwise the number of its bytes and these. -/
def derHeader (n : Nat) : Bytes :=
  if n < 0x80 then [.ofNat n] else .ofNat (0x80 + Bytes.width n) :: Bytes.minimal n

/-- A sequence in DER. -/
def derSequence (contents : Bytes) : Bytes := 0x30 :: derHeader contents.length ++ contents

theorem derLength_short {n : UInt8} (h : n < 0x80) (rest : Bytes) :
    derLength (0x30 :: n :: rest) = .ok (2 + n.toNat) := by
  have h81 : n ≠ 0x81 := UInt8.ne_of_lt (UInt8.lt_trans h (by decide))
  have h82 : n ≠ 0x82 := UInt8.ne_of_lt (UInt8.lt_trans h (by decide))
  simp [derLength, h]

/-- A length that takes more than two bytes is refused. -/
theorem derLength_long {n : UInt8} (h : 0x82 < n) (rest : Bytes) :
    derLength (0x30 :: n :: rest) = .error (.protocol ("unsupported DER length form " ++ Bytes.toHex [n])) := by
  have h81 : n ≠ 0x81 := (UInt8.ne_of_lt (UInt8.lt_trans (by decide) h)).symm
  have h82 : n ≠ 0x82 := (UInt8.ne_of_lt h).symm
  have hlong : ¬ n < 0x80 := UInt8.lt_asymm (UInt8.lt_trans (by decide) h)
  simp [derLength, hlong]

/-- A length that is announced is found. -/
theorem derLength_of_octets {n : Nat} {octets : Bytes} (h : LengthOctets n octets) (rest : Bytes) :
    derLength (0x30 :: octets ++ rest) = .ok (1 + octets.length + n) := by
  cases h with
  | short n h => exact derLength_short h rest
  | oneByte n => rfl
  | twoBytes hi lo => rfl

/-- The shortest form announces a length of at most two bytes. -/
theorem lengthOctets_derHeader {n : Nat} (h : n < 2 ^ 16) : LengthOctets n (derHeader n) := by
  unfold derHeader
  split
  · rename_i hshort
    exact .ofNat_short hshort
  rw [Bytes.minimal]
  by_cases hone : n < 2 ^ 8
  · have hdigits : Bytes.ofNat 1 n = [.ofNat n] := by simp [Bytes.ofNat]
    rw [Bytes.width_of_lt_256 (by omega) hone, hdigits]
    exact .ofNat_one hone
  · rw [Bytes.width_of_lt_65536 (by omega) h]
    exact .ofNat_two (Nat.le_of_lt_succ h)

/-- The bytes of a sequence are as many as its length says. -/
theorem derLength_append {contents certificate : Bytes} (h : IsTagged 0x30 contents certificate) (tail : Bytes) :
    derLength (certificate ++ tail) = .ok certificate.length := by
  obtain ⟨octets, ho, rfl⟩ := h
  have hlength : (0x30 :: octets ++ contents).length = 1 + octets.length + contents.length := by
    simp only [List.cons_append, List.length_cons, List.length_append]
    omega
  rw [List.append_assoc, derLength_of_octets ho, hlength]

/-- The length of a sequence with at most 65535 bytes in it is found. -/
theorem derLength_derSequence {contents : Bytes} (h : contents.length < 2 ^ 16) (tail : Bytes) :
    derLength (derSequence contents ++ tail) = .ok (derSequence contents).length :=
  derLength_append ⟨derHeader contents.length, lengthOctets_derHeader h, rfl⟩ tail

/-! ## Answers -/

/-- The answer to a registration: key, key handle, certificate and signature. -/
def registerAnswer (key : Credential.PublicKey) (keyHandle certificate signature : Bytes) : Bytes :=
  0x05 :: key.toPoint ++ .ofNat keyHandle.length :: keyHandle ++ certificate ++ signature

namespace RegisterResponse

theorem take_append {part : String} {n : Nat} {front rest : Bytes} (h : front.length = n) :
    take part n (front ++ rest) = .ok (front, rest) := by
  have hsplit : Bytes.split? n (front ++ rest) = some (front, rest) := Bytes.split?_eq_some_iff.mpr ⟨rfl, h⟩
  rw [take, hsplit]

variable {key : Credential.PublicKey} {keyHandle certificate signature : Bytes}

theorem length_toPoint (key : Credential.PublicKey) : key.toPoint.length = 65 := by
  rw [Credential.PublicKey.toPoint, List.length_append, List.length_cons, key.x.property, key.y.property]

/-- The byte behind a point is the length of the key handle. -/
theorem toNat_drop_point {point : Bytes} (hp : point.length = 65) (l : UInt8) :
    Bytes.toNat ((point ++ [l]).drop 65) = l.toNat := by
  rw [List.drop_left' hp, Bytes.toNat_cons]
  simp

/-- Up to the certificate an answer is always taken apart. -/
theorem parse_parts {point : Bytes} (hp : point.length = 65) (hk : keyHandle.length ≤ 255) :
    parse (0x05 :: point ++ .ofNat keyHandle.length :: keyHandle ++ certificate ++ signature) = (do
      let (certificate, signature) ← take "certificate" (← derLength (certificate ++ signature))
        (certificate ++ signature)
      if 70 ≤ signature.length ∧ signature.length ≤ 73 then
        return ⟨point, keyHandle, certificate, signature⟩
      else .error (.protocol ("register signature has unexpected length " ++ toString signature.length))) := by
  have hfront : (point ++ [UInt8.ofNat keyHandle.length]).length = 66 := by
    rw [List.length_append, hp, List.length_singleton]
  have hpoint : (point ++ [UInt8.ofNat keyHandle.length]).take 65 = point := List.take_left' hp
  have hlength : Bytes.toNat ((point ++ [UInt8.ofNat keyHandle.length]).drop 65) = keyHandle.length := by
    rw [toNat_drop_point hp, UInt8.toNat_ofNat']
    omega
  have hbytes : 0x05 :: point ++ UInt8.ofNat keyHandle.length :: keyHandle ++ certificate ++ signature =
      0x05 :: ((point ++ [UInt8.ofNat keyHandle.length]) ++ (keyHandle ++ (certificate ++ signature))) := by
    simp only [List.append_assoc, List.cons_append, List.nil_append]
  rw [hbytes, parse]
  simp only [ne_eq, not_true_eq_false, if_false, bind, Except.bind, take_append hfront, hlength, take_append, hpoint]

theorem parse_registerAnswer (hk : keyHandle.length ≤ 255) :
    parse (registerAnswer key keyHandle certificate signature) = (do
      let (certificate, signature) ← take "certificate" (← derLength (certificate ++ signature))
        (certificate ++ signature)
      if 70 ≤ signature.length ∧ signature.length ≤ 73 then
        return ⟨key.toPoint, keyHandle, certificate, signature⟩
      else .error (.protocol ("register signature has unexpected length " ++ toString signature.length))) :=
  parse_parts (length_toPoint key) hk

/-- Parts with a certificate whose length is found are taken apart. -/
theorem parse_of_derLength {point : Bytes} (hp : point.length = 65) (hk : keyHandle.length ≤ 255)
    (hc : derLength (certificate ++ signature) = .ok certificate.length)
    (hs : 70 ≤ signature.length ∧ signature.length ≤ 73) :
    parse (0x05 :: point ++ .ofNat keyHandle.length :: keyHandle ++ certificate ++ signature) =
      .ok ⟨point, keyHandle, certificate, signature⟩ := by
  rw [parse_parts hp hk, hc]
  simp only [bind, Except.bind, take_append, hs, and_self, if_true]
  rfl

theorem parse_answer (hk : keyHandle.length ≤ 255) (hc : derLength (certificate ++ signature) = .ok certificate.length)
    (hs : 70 ≤ signature.length ∧ signature.length ≤ 73) :
    parse (registerAnswer key keyHandle certificate signature) =
      .ok ⟨key.toPoint, keyHandle, certificate, signature⟩ :=
  parse_of_derLength (length_toPoint key) hk hc hs

end RegisterResponse

end Fido

end SecurityKey
