import SecurityKey.Proofs.Cbor.Canonical

/-!
# Fields found in maps

A record is a map with one entry for each field that is present, so a key finds its field whatever the order of the
entries.

- when no two elements of a list pass a test, every order of the list finds the same one (`find?_eq_of_perm`);
- a field is found under its key, where keys are read back and differ (`Value.find?_present`);
- in the canonical form of a record with text keys a field is found in canonical form
  (`Value.findText?_canon_textRecord`), and such a record needs two levels more than its fields
  (`Value.need_textRecord_le`).
-/

namespace SecurityKey.Cbor

/-- Where at most one element passes, its place does not matter. -/
theorem find?_eq_of_perm {α : Type} {p : α → Bool} {l₁ l₂ : List α} (h : l₁.Perm l₂)
    (hone : l₁.Pairwise fun a b => ¬(p a = true ∧ p b = true)) : l₁.find? p = l₂.find? p := by
  rw [← List.head?_filter, ← List.head?_filter]
  have hfilter := h.filter p
  have hpairs := hone.filter p
  cases hl : l₁.filter p with
  | nil =>
    rw [hl] at hfilter
    rw [hfilter.nil_eq]
  | cons a rest =>
    cases rest with
    | nil =>
      rw [hl] at hfilter
      rw [List.singleton_perm.mp hfilter]
    | cons b rest =>
      rw [hl] at hpairs
      have ha : p a = true := (List.mem_filter.mp (hl ▸ List.mem_cons_self)).2
      have hb : p b = true := (List.mem_filter.mp (hl ▸ List.mem_cons_of_mem _ List.mem_cons_self)).2
      exact absurd ⟨ha, hb⟩ ((List.pairwise_cons.mp hpairs).1 b List.mem_cons_self)

/-- Values that are changed are looked up as before. -/
theorem lookup_map_snd {κ α β : Type} [BEq κ] (f : α → β) (fields : List (κ × α)) (key : κ) :
    (fields.map fun e => (e.1, f e.2)).lookup key = (fields.lookup key).map f := by
  induction fields with
  | nil => rfl
  | cons e rest ih =>
    rw [List.map_cons, List.lookup_cons, List.lookup_cons, ih]
    cases key == e.1 <;> rfl

namespace Value

/-- A field is found under its key. -/
theorem find?_present {κ : Type} [BEq κ] [LawfulBEq κ] (read : Value → Option κ) (write : κ → Value)
    {fields : List (κ × Option Value)} (hread : ∀ k ∈ fields.map Prod.fst, read (write k) = some k)
    (hnodup : (fields.map Prod.fst).Nodup) (key : κ) :
    ((present (fields.map fun f => (write f.1, f.2))).find? fun e => read e.1 == some key).map (·.2) =
      (fields.lookup key).join := by
  induction fields with
  | nil => rfl
  | cons f rest ih =>
    obtain ⟨k, value⟩ := f
    obtain ⟨hmem, hnodup⟩ := List.nodup_cons.mp hnodup
    obtain ⟨hk, hread⟩ := List.forall_mem_cons.mp hread
    have ih := ih hread hnodup
    rw [List.lookup_cons]
    cases value with
    | none =>
      have hskip : present (((k, none) :: rest).map fun f => (write f.1, f.2)) =
          present (rest.map fun f => (write f.1, f.2)) := rfl
      rw [hskip, ih]
      by_cases heq : key = k
      · subst heq
        have habsent : rest.lookup key = none := by
          apply List.lookup_eq_none_iff.mpr
          intro f hf
          rw [bne_iff_ne]
          rintro rfl
          exact hmem (List.mem_map.mpr ⟨f, hf, rfl⟩)
        rw [beq_self_eq_true, habsent]
        rfl
      · rw [beq_false_of_ne heq]
    | some v =>
      have hpresent : present (((k, some v) :: rest).map fun f => (write f.1, f.2)) =
          (write k, v) :: present (rest.map fun f => (write f.1, f.2)) := rfl
      rw [hpresent, List.find?_cons, hk]
      by_cases heq : key = k
      · subst heq
        rw [beq_self_eq_true, beq_self_eq_true]
        rfl
      · have hne : (some k == some key) = false := beq_false_of_ne fun h => heq (Option.some.inj h).symm
        rw [hne, beq_false_of_ne heq]
        exact ih

/-! ## Text keys -/

variable {fields : List (String × Option Value)} {n : Nat}

/-- The entries of a record with text keys. -/
def textEntries (fields : List (String × Option Value)) : List (Value × Value) :=
  present (fields.map fun f => (.text f.1, f.2))

/-- Only a text has a text as its canonical form. -/
theorem toText?_canon (v : Value) : v.canon.toText? = v.toText? := by
  cases v with
  | tag number content =>
    rw [canon.eq_def]
    simp only
    split <;> rfl
  | float bits =>
    rw [canon]
    split <;> rfl
  | _ => rfl

/-- No two entries answer to one name. -/
theorem pairwise_textEntries (hnodup : (fields.map Prod.fst).Nodup) (name : String) :
    (textEntries fields).Pairwise fun a b =>
      ¬((a.1.toText? == some name) = true ∧ (b.1.toText? == some name) = true) := by
  rw [textEntries, present, List.pairwise_filterMap, List.pairwise_map]
  apply (List.pairwise_map.mp hnodup).imp
  rintro f g hne a ha b hb ⟨hfirst, hsecond⟩
  obtain ⟨v, -, rfl⟩ := Option.map_eq_some_iff.mp ha
  obtain ⟨w, -, rfl⟩ := Option.map_eq_some_iff.mp hb
  rw [beq_iff_eq] at hfirst hsecond
  exact hne ((Option.some.inj hfirst).trans (Option.some.inj hsecond).symm)

/-- In the canonical form of a record a field is found in canonical form. -/
theorem findText?_canon_textRecord (hnodup : (fields.map Prod.fst).Nodup) (name : String) :
    (textRecord fields).canon.findText? name = (fields.lookup name).join.map canon := by
  have hmap : (textRecord fields).canon.findText? name =
      ((inOrder (textEntries fields)).find? fun e => e.1.toText? == some name).map fun e => canon e.2 := by
    rw [textRecord, canon_map]
    show lookupText _ name = _
    rw [lookupText, List.find?_map, Option.map_map]
    simp only [Function.comp_def, toText?_canon]
    rfl
  have hperm : (textEntries fields).Perm (inOrder (textEntries fields)) := (List.mergeSort_perm ..).symm
  have hfound := find?_present toText? .text (fun _ _ => rfl) hnodup name
  rw [hmap, ← find?_eq_of_perm hperm (pairwise_textEntries hnodup name), ← hfound, Option.map_map]
  rfl

/-- A record with text keys needs two levels more than its fields. -/
theorem need_textRecord_le (hn : 0 < n) (h : ∀ f ∈ fields, ∀ v, f.2 = some v → v.need ≤ n) :
    (textRecord fields).need ≤ n + 2 := by
  have hentries : needEntries (textEntries fields) ≤ n := by
    apply needEntries_le.mpr
    intro e he
    rw [textEntries, present, List.filterMap_map, List.mem_filterMap] at he
    obtain ⟨f, hf, he⟩ := he
    obtain ⟨v, hv, rfl⟩ := Option.map_eq_some_iff.mp he
    exact ⟨hn, h f hf v hv⟩
  show 2 + needEntries (textEntries fields) ≤ n + 2
  omega

end Value

end SecurityKey.Cbor
