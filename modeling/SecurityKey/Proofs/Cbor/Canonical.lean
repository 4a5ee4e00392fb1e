import Mathlib.Algebra.Group.Nat.Defs
import SecurityKey.Cbor.Encode

/-!
# Canonical items

What is left of an item once it is written and read again, and what that costs.

- `Value.ind`: induction over items, with the hypothesis for every element, key and value;
- `Value.need`: the levels of nesting that reading an item takes;
- `Value.Fits`: the lengths in an item fit the headers that announce them;
- `Value.canon`: the item in canonical form. Its entries are those of the item in the order of their encoded keys
  (`Value.canon_map`).
-/

namespace SecurityKey.Cbor

namespace Value

/-- Induction over items. -/
@[elab_as_elim, induction_eliminator]
theorem ind {P : Value → Prop} (unsigned : ∀ n, P (.unsigned n)) (negative : ∀ n, P (.negative n))
    (bignum : ∀ isNegative magnitude, P (.bignum isNegative magnitude)) (bytes : ∀ b, P (.bytes b))
    (text : ∀ s, P (.text s)) (array : ∀ items, (∀ v ∈ items, P v) → P (.array items))
    (map : ∀ entries, (∀ e ∈ entries, P e.1 ∧ P e.2) → P (.map entries))
    (tag : ∀ number content, P content → P (.tag number content)) (float : ∀ bits, P (.float bits))
    (bool : ∀ b, P (.bool b)) (null : P .null) (v : Value) : P v :=
  @Value.rec P (fun items => ∀ v ∈ items, P v) (fun entries => ∀ e ∈ entries, P e.1 ∧ P e.2) (fun e => P e.1 ∧ P e.2)
    unsigned negative bignum bytes text array map tag float bool null
    (fun _ h => nomatch h) (fun _ _ hv hrest => List.forall_mem_cons.mpr ⟨hv, hrest⟩)
    (fun _ h => nomatch h) (fun _ _ he hrest => List.forall_mem_cons.mpr ⟨he, hrest⟩) (fun _ _ hk hv => ⟨hk, hv⟩) v

/-! ## Levels and lengths -/

mutual

/-- How many levels of nesting it takes to read an item. -/
def need : Value → Nat
  | .bignum .. => 2
  | .array items => 2 + needItems items
  | .map entries => 2 + needEntries entries
  | .tag _ content => 1 + need content
  | _ => 1

/-- What the items of an array need at most. -/
def needItems : List Value → Nat
  | [] => 0
  | v :: rest => max (need v) (needItems rest)

/-- What the keys and values of a map need at most. -/
def needEntries : List (Value × Value) → Nat
  | [] => 0
  | (k, v) :: rest => max (max (need k) (need v)) (needEntries rest)

end

mutual

/-- The greatest length of a string, an array or a map in an item. -/
def extent : Value → Nat
  | .bignum _ magnitude => magnitude.length
  | .bytes b => b.length
  | .text s => (Bytes.ofString s).length
  | .array items => max items.length (extentItems items)
  | .map entries => max entries.length (extentEntries entries)
  | .tag _ content => extent content
  | _ => 0

/-- The greatest length in the items of an array. -/
def extentItems : List Value → Nat
  | [] => 0
  | v :: rest => max (extent v) (extentItems rest)

/-- The greatest length in the keys and values of a map. -/
def extentEntries : List (Value × Value) → Nat
  | [] => 0
  | (k, v) :: rest => max (max (extent k) (extent v)) (extentEntries rest)

end

/-- The lengths in an item fit 64 bits, as all lengths in memory do. -/
def Fits (v : Value) : Prop := v.extent < 2 ^ 64

instance (v : Value) : Decidable v.Fits := inferInstanceAs (Decidable (v.extent < 2 ^ 64))

theorem needItems_le {items : List Value} {n : Nat} : needItems items ≤ n ↔ ∀ v ∈ items, need v ≤ n := by
  induction items with
  | nil => simp [needItems]
  | cons v rest ih => simp [needItems, Nat.max_le, ih]

theorem needEntries_le {entries : List (Value × Value)} {n : Nat} :
    needEntries entries ≤ n ↔ ∀ e ∈ entries, need e.1 ≤ n ∧ need e.2 ≤ n := by
  induction entries with
  | nil => simp [needEntries]
  | cons e rest ih =>
    obtain ⟨k, v⟩ := e
    simp [needEntries, Nat.max_le, ih, and_assoc]

theorem extentItems_lt {items : List Value} {n : Nat} (hn : 0 < n) :
    extentItems items < n ↔ ∀ v ∈ items, extent v < n := by
  induction items with
  | nil => simp [extentItems, hn]
  | cons v rest ih => simp [extentItems, Nat.max_lt, ih]

theorem extentEntries_lt {entries : List (Value × Value)} {n : Nat} (hn : 0 < n) :
    extentEntries entries < n ↔ ∀ e ∈ entries, extent e.1 < n ∧ extent e.2 < n := by
  induction entries with
  | nil => simp [extentEntries, hn]
  | cons e rest ih =>
    obtain ⟨k, v⟩ := e
    simp [extentEntries, Nat.max_lt, ih, and_assoc]

/-! ## Writing -/

/-- Entries in the order of their encoded keys. Entries with equal keys keep their order. -/
def inOrder (entries : List (Value × Value)) : List (Value × Value) :=
  entries.mergeSort fun a b => keyLE a.1.encode b.1.encode

theorem encodeItems_eq_flatMap (items : List Value) : encodeItems items = items.flatMap encode := by
  induction items with
  | nil => rfl
  | cons v rest ih => rw [encodeItems, ih, List.flatMap_cons]

theorem encodeEntries_eq_map (entries : List (Value × Value)) :
    encodeEntries entries = entries.map fun e => (encode e.1, encode e.2) := by
  induction entries with
  | nil => rfl
  | cons e rest ih =>
    obtain ⟨k, v⟩ := e
    rw [encodeEntries, ih, List.map_cons]

/-- An array is its header and its items. -/
theorem encode_array (items : List Value) :
    encode (.array items) = header 4 items.length ++ items.flatMap encode := by
  rw [encode, encodeItems_eq_flatMap]

/-- A map is its header and its entries in order. -/
theorem encode_map (entries : List (Value × Value)) :
    encode (.map entries) =
      header 5 entries.length ++ (inOrder entries).flatMap fun e => encode e.1 ++ encode e.2 := by
  have h := List.map_mergeSort (r := fun a b => keyLE a.1.encode b.1.encode) (s := fun a b => keyLE a.1 b.1)
    (f := fun e : Value × Value => (encode e.1, encode e.2)) (l := entries) fun _ _ _ _ => rfl
  rw [encode, encodeEntries_eq_map, sortEntries, ← h, List.flatMap_map]
  rfl

/-! ## Canonical form -/

/-- The double that all NaNs become. -/
def quietNaN : UInt64 := 0x7ff8000000000000

mutual

/-- The canonical form of an item: entries in order, magnitudes without leading zeros, byte strings under the bignum
tags as bignums, and one NaN. -/
def canon : Value → Value
  | .bignum isNegative magnitude => .bignum isNegative (Bytes.stripZeros magnitude)
  | .array items => .array (canonItems items)
  | .map entries => .map (((canonEntries entries).mergeSort fun a b => keyLE a.1 b.1).map (·.2))
  | .tag number content =>
    match number, content with
    | 2, .bytes magnitude => .bignum false magnitude
    | 3, .bytes magnitude => .bignum true magnitude
    | number, content => .tag number (canon content)
  | .float bits => if Format.double.isNaN bits.toNat then .float quietNaN else .float bits
  | v => v

/-- The canonical forms of the items of an array. -/
def canonItems : List Value → List Value
  | [] => []
  | v :: rest => canon v :: canonItems rest

/-- The canonical forms of the entries of a map, each with its encoded key. -/
def canonEntries : List (Value × Value) → List (Bytes × Value × Value)
  | [] => []
  | (k, v) :: rest => (encode k, canon k, canon v) :: canonEntries rest

end

theorem canonItems_eq_map (items : List Value) : canonItems items = items.map canon := by
  induction items with
  | nil => rfl
  | cons v rest ih => rw [canonItems, ih, List.map_cons]

theorem canonEntries_eq_map (entries : List (Value × Value)) :
    canonEntries entries = entries.map fun e => (encode e.1, canon e.1, canon e.2) := by
  induction entries with
  | nil => rfl
  | cons e rest ih =>
    obtain ⟨k, v⟩ := e
    rw [canonEntries, ih, List.map_cons]

/-- The entries of a map in canonical form are in order. -/
theorem canon_map (entries : List (Value × Value)) :
    canon (.map entries) = .map ((inOrder entries).map fun e => (canon e.1, canon e.2)) := by
  have h := List.map_mergeSort (r := fun a b => keyLE a.1.encode b.1.encode) (s := fun a b => keyLE a.1 b.1)
    (f := fun e : Value × Value => (encode e.1, canon e.1, canon e.2)) (l := entries) fun _ _ _ _ => rfl
  rw [canon, canonEntries_eq_map, ← h, List.map_map]
  rfl

/-- Only a byte string has a byte string as its canonical form. -/
theorem eq_bytes_of_canon {v : Value} {b : Bytes} (h : canon v = .bytes b) : v = .bytes b := by
  cases v with
  | bytes => exact h
  | tag number content =>
    rw [canon.eq_def] at h
    simp only at h
    split at h <;> cases h
  | float bits =>
    rw [canon] at h
    split at h <;> cases h
  | _ => cases h

end Value

end SecurityKey.Cbor
