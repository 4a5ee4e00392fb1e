import SecurityKey.Error

/-!
# Tagged data

Data behind a tag of one byte and a length in one of three forms. `Tlv.encode` writes them and `Tlv.read` takes them
off the front of the input.
-/

namespace SecurityKey.Piv

/-- Data with a tag. -/
structure Tlv where
  tag : UInt8
  value : Bytes
  deriving DecidableEq

namespace Tlv

/-- A length in the shortest of its forms. -/
def encodeLength (n : Nat) : Except Error Bytes :=
  if n < 0x80 then .ok [.ofNat n]
  else if n < 0x100 then .ok [0x81, .ofNat n]
  else if n < 0x10000 then .ok (0x82 :: Bytes.ofNat 2 n)
  else .error (.protocol ("TLV value of " ++ toString n ++ " bytes is too long"))

/-- Tag, length and data. -/
def encode (t : Tlv) : Except Error Bytes := do
  return t.tag :: (← encodeLength t.value.length) ++ t.value

/-- The length at the front of the input, and the rest. -/
def readLength (input : Bytes) : Except Error (Nat × Bytes) :=
  let truncated := .error (.protocol "TLV length truncated")
  match input with
  | [] => truncated
  | 0x81 :: rest =>
    match rest with
    | n :: rest => .ok (n.toNat, rest)
    | [] => truncated
  | 0x82 :: rest =>
    match rest with
    | hi :: lo :: rest => .ok (Bytes.toNat [hi, lo], rest)
    | _ => truncated
  | n :: rest =>
    if n < 0x80 then .ok (n.toNat, rest)
    else .error (.protocol ("unsupported TLV length form " ++ Bytes.toHex [n]))

/-- The tagged data at the front of the input, and the rest. -/
def read (input : Bytes) : Except Error (Tlv × Bytes) :=
  match input with
  | [] => .error (.protocol "TLV truncated")
  | tag :: rest => do
    let (n, rest) ← readLength rest
    match Bytes.split? n rest with
    | some (value, rest) => return (⟨tag, value⟩, rest)
    | none => .error (.protocol ("TLV " ++ Bytes.toHex [tag] ++ " truncated"))

theorem length_readLength {input rest : Bytes} {n : Nat} (h : readLength input = .ok (n, rest)) :
    rest.length < input.length := by
  unfold readLength at h
  split at h <;> (try split at h) <;> simp_all
  all_goals grind

/-- What is read is taken off the input. -/
theorem length_read {input rest : Bytes} {t : Tlv} (h : read input = .ok (t, rest)) :
    rest.length < input.length := by
  cases input with
  | nil => simp [read] at h
  | cons tag input =>
    simp only [read] at h
    cases hl : readLength input with
    | error e => simp [hl, bind, Except.bind] at h
    | ok r =>
      obtain ⟨n, body⟩ := r
      simp only [hl, bind, Except.bind] at h
      cases hs : Bytes.split? n body with
      | none => simp [hs] at h
      | some p =>
        obtain ⟨value, tail⟩ := p
        simp only [hs, pure, Except.pure, Except.ok.injEq, Prod.mk.injEq] at h
        obtain ⟨-, rfl⟩ := h
        obtain ⟨rfl, -⟩ := Bytes.split?_eq_some_iff.1 hs
        have := length_readLength hl
        simp only [List.length_append, List.length_cons] at *
        omega

/-- The data of the first tag of its kind among tagged data, if there are any; what follows them does not count. -/
def find? (tag : UInt8) (input : Bytes) : Except Error (Option Bytes) :=
  if input = [] then .ok none
  else
    match h : read input with
    | .error e => .error e
    | .ok (t, rest) =>
      have := length_read h
      if t.tag = tag then .ok (some t.value) else find? tag rest
termination_by input.length

end Tlv

end SecurityKey.Piv
