import Mathlib.Logic.Relation
import SecurityKey.Proofs.Cbor.Canonical

/-!
# Items with one encoding

The entries of a map are written in the order of their encoded keys, and entries with equal keys in the order they
have. So an item may be rearranged, anywhere inside it, without a change to what is written.

- `Value.Rewrites R`: an item becomes another by steps of the kind `R`, each anywhere inside it. Where the steps keep
  the encoding, so does the whole (`Value.encode_eq_of_rewrites`);
- `Value.Rearranged`: the entries of a map in another order that keeps the order of entries with equal keys. A map is
  written from any such order (`Value.Rearranged.inOrder_eq`), and its own is one (`Value.rearranged_inOrder`);
- `Value.Respelling`: a map rearranged, a magnitude with other leading zeros, another NaN;
- maps whose keys have different encodings may be shuffled (`Value.encode_shuffled`).
-/

namespace SecurityKey.Cbor

/-! ## The order of keys -/

theorem keyLE_iff {a b : Bytes} : keyLE a b = true ↔ a.length < b.length ∨ a.length = b.length ∧ a ≤ b := by
  simp [keyLE]

theorem keyLE_trans (a b c : Bytes) (h : keyLE a b = true) (h' : keyLE b c = true) : keyLE a c = true := by
  rw [keyLE_iff] at *
  rcases h with h | ⟨h, hab⟩
  · left
    omega
  · rcases h' with h' | ⟨h', hbc⟩
    · left
      omega
    · exact .inr ⟨h.trans h', List.le_trans hab hbc⟩

theorem keyLE_total (a b : Bytes) : (keyLE a b || keyLE b a) = true := by
  rw [Bool.or_eq_true, keyLE_iff, keyLE_iff]
  rcases Nat.lt_trichotomy a.length b.length with h | h | h
  · exact .inl (.inl h)
  · rcases List.le_total a b with hab | hba
    · exact .inl (.inr ⟨h, hab⟩)
    · exact .inr (.inr ⟨h.symm, hba⟩)
  · exact .inr (.inl h)

theorem keyLE_refl (a : Bytes) : keyLE a a = true := (Bool.or_self _).symm.trans (keyLE_total a a)

/-- Keys that are in order both ways are equal. -/
theorem keyLE_antisymm {a b : Bytes} (h : keyLE a b = true) (h' : keyLE b a = true) : a = b := by
  rw [keyLE_iff] at h h'
  have hab : a ≤ b ∧ b ≤ a := by
    constructor
    · rcases h with h | h
      · omega
      · exact h.2
    · rcases h' with h' | h'
      · omega
      · exact h'.2
  exact List.le_antisymm hab.1 hab.2

namespace Value

/-! ## Steps inside an item -/

/-- A step of the kind `R` at one place of an item: at its top, or inside an element, a key, a value or a content. -/
inductive Inside (R : Value → Value → Prop) : Value → Value → Prop
  | top {v w : Value} (h : R v w) : Inside R v w
  | item {v w : Value} (before after : List Value) (h : Inside R v w) :
      Inside R (.array (before ++ v :: after)) (.array (before ++ w :: after))
  | key {k l : Value} (v : Value) (before after : List (Value × Value)) (h : Inside R k l) :
      Inside R (.map (before ++ (k, v) :: after)) (.map (before ++ (l, v) :: after))
  | value {v w : Value} (k : Value) (before after : List (Value × Value)) (h : Inside R v w) :
      Inside R (.map (before ++ (k, v) :: after)) (.map (before ++ (k, w) :: after))
  | content {v w : Value} (number : UInt64) (h : Inside R v w) : Inside R (.tag number v) (.tag number w)

/-- Steps of the kind `R` lead from an item to another, each at some place. -/
def Rewrites (R : Value → Value → Prop) : Value → Value → Prop := Relation.ReflTransGen (Inside R)

/-- A map is written from the encodings of its entries. -/
theorem encode_map_congr {entries entries' : List (Value × Value)}
    (h : entries.map (fun e => (encode e.1, encode e.2)) = entries'.map fun e => (encode e.1, encode e.2)) :
    encode (.map entries) = encode (.map entries') := by
  have hlength := congrArg List.length h
  rw [List.length_map, List.length_map] at hlength
  rw [encode, encode, encodeEntries_eq_map, encodeEntries_eq_map, h, hlength]

section Steps

variable {R : Value → Value → Prop} {v w : Value}

/-- A step that keeps the encoding keeps it at every place. -/
theorem encode_eq_of_inside (hR : ∀ v w, R v w → v.encode = w.encode) (h : Inside R v w) : v.encode = w.encode := by
  induction h with
  | top h => exact hR _ _ h
  | item before after _ ih =>
    simp only [encode_array, List.length_append, List.length_cons, List.flatMap_append, List.flatMap_cons, ih]
  | key v before after _ ih => exact encode_map_congr (by simp only [List.map_append, List.map_cons, ih])
  | value k before after _ ih => exact encode_map_congr (by simp only [List.map_append, List.map_cons, ih])
  | content number _ ih => rw [encode, encode, ih]

/-- So do several steps. -/
theorem encode_eq_of_rewrites (hR : ∀ v w, R v w → v.encode = w.encode) (h : Rewrites R v w) :
    v.encode = w.encode := by
  induction h with
  | refl => rfl
  | tail _ hstep ih => exact ih.trans (encode_eq_of_inside hR hstep)

/-- What is rewritten may stand inside something. -/
theorem Rewrites.inside {f : Value → Value} (hf : ∀ {x y}, Inside R x y → Inside R (f x) (f y)) (h : Rewrites R v w) :
    Rewrites R (f v) (f w) := by
  induction h with
  | refl => exact .refl
  | tail _ hstep ih => exact ih.tail (hf hstep)

/-- The elements of an array are rewritten one by one. -/
theorem rewrites_array {f : Value → Value} {items : List Value} (before : List Value)
    (h : ∀ v ∈ items, Rewrites R v (f v)) :
    Rewrites R (.array (before ++ items)) (.array (before ++ items.map f)) := by
  induction items generalizing before with
  | nil => exact .refl
  | cons v rest ih =>
    obtain ⟨hv, hrest⟩ := List.forall_mem_cons.mp h
    have hfirst : Rewrites R (.array (before ++ v :: rest)) (.array (before ++ f v :: rest)) :=
      hv.inside (.item before rest)
    have hothers := ih (before ++ [f v]) hrest
    simp only [List.append_assoc, List.singleton_append] at hothers
    exact hfirst.trans hothers

/-- The keys and values of a map are rewritten one by one. -/
theorem rewrites_map {f : Value → Value} {entries : List (Value × Value)} (before : List (Value × Value))
    (h : ∀ e ∈ entries, Rewrites R e.1 (f e.1) ∧ Rewrites R e.2 (f e.2)) :
    Rewrites R (.map (before ++ entries)) (.map (before ++ entries.map fun e => (f e.1, f e.2))) := by
  induction entries generalizing before with
  | nil => exact .refl
  | cons e rest ih =>
    obtain ⟨k, v⟩ := e
    obtain ⟨⟨hk, hv⟩, hrest⟩ := List.forall_mem_cons.mp h
    have hkey : Rewrites R (.map (before ++ (k, v) :: rest)) (.map (before ++ (f k, v) :: rest)) :=
      hk.inside (.key v before rest)
    have hvalue : Rewrites R (.map (before ++ (f k, v) :: rest)) (.map (before ++ (f k, f v) :: rest)) :=
      hv.inside (.value (f k) before rest)
    have hothers := ih (before ++ [(f k, f v)]) hrest
    simp only [List.append_assoc, List.singleton_append] at hothers
    exact (hkey.trans hvalue).trans hothers

theorem rewrites_tag (number : UInt64) (h : Rewrites R v w) : Rewrites R (.tag number v) (.tag number w) :=
  h.inside (.content number)

end Steps

/-! ## Entries rearranged -/

/-- The entries with one encoded key. -/
def withKey (key : Bytes) (entries : List (Value × Value)) : List (Value × Value) :=
  entries.filter fun e => e.1.encode = key

/-- The entries of a map in another order, in which entries with equal keys have the order they had. -/
structure Rearranged (entries entries' : List (Value × Value)) : Prop where
  perm : entries.Perm entries'
  stable : ∀ key, withKey key entries = withKey key entries'

/-- Entries come in the order of their keys. -/
def Ordered (entries : List (Value × Value)) : Prop :=
  entries.Pairwise fun a b => keyLE a.1.encode b.1.encode = true

section Orders

variable {entries entries' : List (Value × Value)} {e : Value × Value} {key : Bytes}

theorem mem_withKey : e ∈ withKey key entries ↔ e ∈ entries ∧ e.1.encode = key := by
  rw [withKey, List.mem_filter, decide_eq_true_iff]

theorem withKey_cons_of_eq (h : e.1.encode = key) : withKey key (e :: entries) = e :: withKey key entries :=
  List.filter_cons_of_pos (decide_eq_true h)

theorem withKey_cons_of_ne (h : e.1.encode ≠ key) : withKey key (e :: entries) = withKey key entries :=
  List.filter_cons_of_neg fun he => h (of_decide_eq_true he)

/-- Every entry has some key. -/
theorem mem_iff_of_withKey (h : ∀ key, withKey key entries = withKey key entries') : e ∈ entries ↔ e ∈ entries' := by
  have he := congrArg (e ∈ ·) (h e.1.encode)
  simpa only [mem_withKey, and_true, eq_iff_iff] using he

theorem ordered_withKey (key : Bytes) (entries : List (Value × Value)) : Ordered (withKey key entries) := by
  apply List.pairwise_of_forall_mem_list
  intro a ha b hb
  rw [(mem_withKey.mp ha).2, (mem_withKey.mp hb).2]
  exact keyLE_refl key

theorem ordered_inOrder (entries : List (Value × Value)) : Ordered (inOrder entries) :=
  List.pairwise_mergeSort (fun a b c => keyLE_trans a.1.encode b.1.encode c.1.encode)
    (fun a b => keyLE_total a.1.encode b.1.encode) entries

/-- To put entries in order is to rearrange them. -/
theorem rearranged_inOrder (entries : List (Value × Value)) : Rearranged entries (inOrder entries) := by
  have hperm : (inOrder entries).Perm entries := List.mergeSort_perm ..
  refine ⟨hperm.symm, fun key => ?_⟩
  -- the entries with one key are in order already, so that sorting leaves them in this order
  have hsub : (withKey key entries).Sublist (inOrder entries) :=
    List.sublist_mergeSort (fun a b c => keyLE_trans a.1.encode b.1.encode c.1.encode)
      (fun a b => keyLE_total a.1.encode b.1.encode) (ordered_withKey key entries) List.filter_sublist
  have hfilter : (withKey key (withKey key entries)).Sublist (withKey key (inOrder entries)) := hsub.filter _
  have hsame : withKey key (withKey key entries) = withKey key entries := by
    rw [withKey, withKey, List.filter_filter]
    simp only [Bool.and_self]
  rw [hsame] at hfilter
  exact hfilter.eq_of_length (hperm.symm.filter _).length_eq

/-- Entries in order with the same entries for every key are the same. -/
theorem eq_of_ordered (h : Ordered entries) (h' : Ordered entries')
    (hkeys : ∀ key, withKey key entries = withKey key entries') : entries = entries' := by
  induction entries generalizing entries' with
  | nil =>
    cases entries' with
    | nil => rfl
    | cons b rest' => exact absurd ((mem_iff_of_withKey hkeys).mpr List.mem_cons_self) List.not_mem_nil
  | cons a rest ih =>
    cases entries' with
    | nil => exact absurd ((mem_iff_of_withKey hkeys).mp List.mem_cons_self) List.not_mem_nil
    | cons b rest' =>
      obtain ⟨ha, hrest⟩ := List.pairwise_cons.mp h
      obtain ⟨hb, hrest'⟩ := List.pairwise_cons.mp h'
      -- the least key is at the front of both
      have hkey : b.1.encode = a.1.encode := by
        have hab : keyLE a.1.encode b.1.encode = true := by
          rcases List.mem_cons.mp ((mem_iff_of_withKey hkeys).mpr List.mem_cons_self) with rfl | hm
          · exact keyLE_refl _
          · exact ha b hm
        have hba : keyLE b.1.encode a.1.encode = true := by
          rcases List.mem_cons.mp ((mem_iff_of_withKey hkeys).mp List.mem_cons_self) with rfl | hm
          · exact keyLE_refl _
          · exact hb a hm
        exact keyLE_antisymm hba hab
      have hfront := hkeys a.1.encode
      rw [withKey_cons_of_eq rfl, withKey_cons_of_eq hkey] at hfront
      obtain ⟨rfl, -⟩ := List.cons.inj hfront
      have hkeys' : ∀ key, withKey key rest = withKey key rest' := by
        intro key
        have hall := hkeys key
        by_cases hk : a.1.encode = key
        · rw [withKey_cons_of_eq hk, withKey_cons_of_eq hk] at hall
          exact (List.cons.inj hall).2
        · rwa [withKey_cons_of_ne hk, withKey_cons_of_ne hk] at hall
      rw [ih hrest hrest' hkeys']

/-- There is one way to put rearranged entries in order. -/
theorem Rearranged.inOrder_eq (h : Rearranged entries entries') : inOrder entries = inOrder entries' := by
  refine eq_of_ordered (ordered_inOrder entries) (ordered_inOrder entries') fun key => ?_
  rw [← (rearranged_inOrder entries).stable, h.stable, (rearranged_inOrder entries').stable]

/-- Rearranged entries are written the same. -/
theorem Rearranged.encode_eq (h : Rearranged entries entries') : encode (.map entries) = encode (.map entries') := by
  rw [encode_map, encode_map, h.inOrder_eq, h.perm.length_eq]

/-- Where no two keys are equal, every order keeps the order of equal ones. -/
theorem rearranged_of_nodup (h : entries.Perm entries') (hkeys : (entries.map fun e => e.1.encode).Nodup) :
    Rearranged entries entries' := by
  refine ⟨h, fun key => ?_⟩
  have hperm : (withKey key entries).Perm (withKey key entries') := h.filter _
  have hone : (withKey key entries).Pairwise fun _ _ => False := by
    refine ((List.pairwise_map.mp hkeys).filter _).imp_of_mem fun {a b} ha hb hne => hne ?_
    exact (mem_withKey.mp ha).2.trans (mem_withKey.mp hb).2.symm
  have hone' : (withKey key entries').Pairwise fun _ _ => False := (hperm.pairwise_iff fun h => h).mp hone
  exact hperm.eq_of_pairwise (fun _ _ _ _ hab _ => hab.elim) hone hone'

end Orders

/-! ## Respelling -/

/-- A change to an item that its encoding does not tell. -/
inductive Respelling : Value → Value → Prop
  | order {entries entries' : List (Value × Value)} (h : Rearranged entries entries') :
      Respelling (.map entries) (.map entries')
  /-- Leading zeros of a magnitude come or go. -/
  | zeros {magnitude magnitude' : Bytes} (isNegative : Bool)
      (h : Bytes.stripZeros magnitude = Bytes.stripZeros magnitude') :
      Respelling (.bignum isNegative magnitude) (.bignum isNegative magnitude')
  | nan {bits bits' : UInt64} (h : Format.double.isNaN bits.toNat = true)
      (h' : Format.double.isNaN bits'.toNat = true) : Respelling (.float bits) (.float bits')

/-- Respelled items have one encoding. -/
theorem encode_eq_of_respelling {v w : Value} (h : Respelling v w) : v.encode = w.encode := by
  cases h with
  | order h => exact h.encode_eq
  | zeros isNegative h => rw [encode, encode, h]
  | nan h h' => simp only [encode, encodeFloat, h, h', if_true]

/-! ## Shuffling -/

/-- The entries of a map whose keys have different encodings in any other order. -/
inductive Shuffling : Value → Value → Prop
  | shuffle {entries entries' : List (Value × Value)} (h : entries.Perm entries')
      (hkeys : (entries.map fun e => e.1.encode).Nodup) : Shuffling (.map entries) (.map entries')

/-- **Maps are written in the order of their encoded keys.** Items that differ in the order of entries only, anywhere
inside them, in maps whose keys have different encodings, are written the same. And every map is written as its header
and all its entries, shorter keys first and keys of one length bytewise, where entries with equal keys keep their
order. -/
theorem encode_shuffled :
    (∀ v w : Value, Rewrites Shuffling v w → v.encode = w.encode) ∧
      ∀ entries : List (Value × Value), ∃ written : List (Value × Value),
        encode (.map entries) = header 5 entries.length ++ written.flatMap (fun e => e.1.encode ++ e.2.encode) ∧
          written.Perm entries ∧
          written.Pairwise (fun a b => a.1.encode.length < b.1.encode.length ∨
            a.1.encode.length = b.1.encode.length ∧ a.1.encode ≤ b.1.encode) ∧
          ∀ key, withKey key written = withKey key entries := by
  constructor
  · intro v w h
    refine encode_eq_of_rewrites (fun v w hstep => ?_) h
    cases hstep with
    | shuffle hperm hkeys => exact (rearranged_of_nodup hperm hkeys).encode_eq
  · intro entries
    have horder := rearranged_inOrder entries
    refine ⟨inOrder entries, encode_map entries, horder.perm.symm, ?_, fun key => (horder.stable key).symm⟩
    exact (ordered_inOrder entries).imp fun h => keyLE_iff.mp h

/-- Shuffled inside a key, and with the entry moved that has this key. -/
theorem encode_shuffled_in_key :
    let v : Value := .map [(.map [(.unsigned 2, .null), (.unsigned 1, .null)], .null), (.unsigned 7, .bool true)]
    let w : Value := .map [(.unsigned 7, .bool true), (.map [(.unsigned 1, .null), (.unsigned 2, .null)], .null)]
    Rewrites Shuffling v w ∧ v.encode = w.encode := by
  have hinner : Shuffling (.map [(.unsigned 2, .null), (.unsigned 1, .null)])
      (.map [(.unsigned 1, .null), (.unsigned 2, .null)]) := .shuffle (.swap ..) (by decide)
  have hkey := Inside.key .null [] [(.unsigned 7, .bool true)] (.top hinner)
  have houter : Shuffling
      (.map [(.map [(.unsigned 1, .null), (.unsigned 2, .null)], .null), (.unsigned 7, .bool true)])
      (.map [(.unsigned 7, .bool true), (.map [(.unsigned 1, .null), (.unsigned 2, .null)], .null)]) := by
    refine .shuffle (.swap ..) ?_
    have hsorted : encode (.map [(.unsigned 1, .null), (.unsigned 2, .null)]) = [0xa2, 0x01, 0xf6, 0x02, 0xf6] := by
      rw [encode_map, inOrder, List.mergeSort_of_pairwise (by decide)]
      decide
    simp only [List.map_cons, List.map_nil, hsorted]
    decide
  have hrewrites := (Relation.ReflTransGen.single hkey).tail (.top houter)
  exact ⟨hrewrites, encode_shuffled.1 _ _ hrewrites⟩

end Value

end SecurityKey.Cbor
