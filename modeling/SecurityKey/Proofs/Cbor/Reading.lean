import Mathlib.Algebra.Group.Nat.Defs
import SecurityKey.Cbor.Decode
import SecurityKey.Cbor.Encode

/-!
# Reading what was written

Each reader finds what the writer of its kind put at the front of the input, and leaves what comes behind.

- numbers and headers: `readNat_ofNat`, `header_cases`;
- items of the last major type: `readItem_simple`;
- strings: `readString_append`;
- sequences: `readMany_flatMap`, where elements may be refused.
-/

namespace SecurityKey.Cbor

/-! ## Numbers and headers -/

/-- A number that fits its width is read back. -/
theorem readNat_ofNat {width n : Nat} (h : n < 256 ^ width) (tail : Bytes) :
    readNat width (Bytes.ofNat width n ++ tail) = some (n, tail) := by
  have hs : Bytes.split? width (Bytes.ofNat width n ++ tail) = some (Bytes.ofNat width n, tail) :=
    Bytes.split?_eq_some_iff.mpr ⟨rfl, Bytes.length_ofNat ..⟩
  simp only [readNat, hs, Option.map_some, Bytes.toNat_ofNat, Nat.mod_eq_of_lt h]

/-- A header is a byte that tells the major type and how to read the argument, and the digits of the argument. -/
theorem header_cases {m n : Nat} (hm : m < 8) (hn : n < 2 ^ 64) :
    ∃ first digits, header m n = first :: digits ∧ first.toNat / 32 = m ∧ first.toNat % 32 < 28 ∧
      ∀ tail, readArgument (first.toNat % 32) (digits ++ tail) = some (n, tail) := by
  -- the first byte holds the major type above five bits of information
  have hfirst : ∀ info < 28, (UInt8.ofNat (m * 32 + info)).toNat / 32 = m ∧
      (UInt8.ofNat (m * 32 + info)).toNat % 32 = info := by
    intro info hi
    rw [UInt8.toNat_ofNat']
    omega
  have hsplit : ∀ info < 28, ∀ digits, (∀ tail, readArgument info (digits ++ tail) = some (n, tail)) →
      ∃ first rest, UInt8.ofNat (m * 32 + info) :: digits = first :: rest ∧ first.toNat / 32 = m ∧
        first.toNat % 32 < 28 ∧ ∀ tail, readArgument (first.toNat % 32) (rest ++ tail) = some (n, tail) := by
    intro info hi digits hd
    obtain ⟨hdiv, hmod⟩ := hfirst info hi
    exact ⟨_, _, rfl, hdiv, by rwa [hmod], by rwa [hmod]⟩
  unfold header
  simp only
  split
  · rename_i h
    exact hsplit n (by omega) [] fun tail => by rw [readArgument, if_pos h, List.nil_append]
  split
  · rename_i h
    exact hsplit 24 (by decide) _ fun tail => show readNat 1 _ = _ from readNat_ofNat (by omega) tail
  split
  · rename_i h
    exact hsplit 25 (by decide) _ fun tail => show readNat 2 _ = _ from readNat_ofNat (by omega) tail
  split
  · rename_i h
    exact hsplit 26 (by decide) _ fun tail => show readNat 4 _ = _ from readNat_ofNat (by omega) tail
  · exact hsplit 27 (by decide) _ fun tail => show readNat 8 _ = _ from readNat_ofNat (by omega) tail

/-! ## Items of the last major type -/

/-- The last major type takes one level. -/
theorem readItem_simple {levels : Nat} {first : UInt8} {tail : Bytes} (h : first.toNat / 32 = 7) :
    readItem (levels + 1) (first :: tail) = readSimple (first.toNat % 32) tail := by
  rw [readItem.eq_def]
  simp [h]

/-! ## Strings and sequences -/

variable {α β : Type}

/-- A string of the announced length is read. -/
theorem readString_append {info : Nat} {digits b : Bytes}
    (h : ∀ tail, readArgument info (digits ++ tail) = some (b.length, tail)) (tail : Bytes) :
    readString info (digits ++ (b ++ tail)) = some (b, tail) := by
  have hs : Bytes.split? b.length (b ++ tail) = some (b, tail) := Bytes.split?_eq_some_iff.mpr ⟨rfl, rfl⟩
  simp [readString, h, hs]

/-- Elements are read one after the other, as far as they can be read. -/
theorem readMany_flatMap {read : Reader β} {write : α → Bytes} {f : α → β} {p : α → Prop} [DecidablePred p]
    {xs : List α} (h : ∀ x ∈ xs, ∀ tail, read (write x ++ tail) = if p x then some (f x, tail) else none)
    (tail : Bytes) :
    readMany read xs.length (xs.flatMap write ++ tail) = if ∀ x ∈ xs, p x then some (xs.map f, tail) else none := by
  induction xs with
  | nil => simp [readMany]
  | cons x xs ih =>
    have hx := h x (List.mem_cons_self ..) (xs.flatMap write ++ tail)
    have ih := ih fun y hy => h y (List.mem_cons_of_mem _ hy)
    rw [List.length_cons, readMany, List.flatMap_cons, List.append_assoc, hx]
    by_cases hp : p x
    · by_cases hps : ∀ y ∈ xs, p y
      · rw [if_pos hps] at ih
        rw [if_pos hp, if_pos (List.forall_mem_cons.mpr ⟨hp, hps⟩)]
        simp [ih]
      · rw [if_neg hps] at ih
        rw [if_pos hp, if_neg fun hall => hps (List.forall_mem_cons.mp hall).2]
        simp [ih]
    · rw [if_neg hp, if_neg fun hall => hp (List.forall_mem_cons.mp hall).1]
      rfl

/-- An entry is read when its key and its value are. -/
theorem readEntry_append {read : Reader β} {write : α → Bytes} {f : α → β} {p : α → Prop} [DecidablePred p]
    {e : α × α} (hk : ∀ tail, read (write e.1 ++ tail) = if p e.1 then some (f e.1, tail) else none)
    (hv : ∀ tail, read (write e.2 ++ tail) = if p e.2 then some (f e.2, tail) else none) (tail : Bytes) :
    readEntry read (write e.1 ++ write e.2 ++ tail) =
      if p e.1 ∧ p e.2 then some ((f e.1, f e.2), tail) else none := by
  rw [readEntry, List.append_assoc, hk]
  by_cases h1 : p e.1
  · by_cases h2 : p e.2 <;> simp [h1, h2, hv]
  · simp [h1]

end SecurityKey.Cbor
