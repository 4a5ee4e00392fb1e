import Mathlib.Algebra.GroupWithZero.Nat
import SecurityKey.Cbor.Decode

/-!
# What readers take off their input

A reader `Takes` what is `P` from the front of its input:

- what it leaves is the end of the input, and what it has read is no larger than what it has passed over;
- bytes behind the ones that it has looked at change nothing: from every extension of the input it reads the same, and
  leaves the extension untouched.

The property goes through the ways of putting readers together (`Reader.Takes.bind`, `Reader.Takes.first`), so that
there is one lemma for every reader. A string without a length looks at the byte that ends it and leaves it
(`head?_of_readUntilBreak`): the byte has to be there already, and what comes after it is not looked at.
-/

namespace SecurityKey.Cbor

variable {α β : Type}

/-- What a reader has taken off an input when it has read `x` and left `rest`. -/
structure Reader.Took (read : Reader α) (P : α → Prop) (size : α → Nat) (input : Bytes) (x : α) (rest : Bytes) :
    Prop where
  holds : P x
  suffix : rest <:+ input
  size_le : size x + rest.length ≤ input.length
  extend : ∀ tail, read (input ++ tail) = some (x, rest ++ tail)

/-- What the reader takes off the front of an input is `P`, no larger than that front and the same in front of any
other bytes. -/
def Reader.Takes (read : Reader α) (P : α → Prop) (size : α → Nat) : Prop :=
  ∀ input x rest, read input = some (x, rest) → read.Took P size input x rest

section Readers

variable {P : α → Prop} {Q : β → Prop} {size : α → Nat} {size' : β → Nat} {read : Reader α}

/-- One reader after the other: the second has to account for what is left of the size. -/
theorem Reader.Takes.bind {next : α → Reader β} (hread : read.Takes P size)
    (hnext : ∀ x, P x → (next x).Takes Q fun y => size' y - size x) :
    Reader.Takes (fun input => (read input).bind fun (x, rest) => next x rest) Q size' := by
  intro input y rest h
  obtain ⟨⟨x, middle⟩, hx, hy⟩ := Option.bind_eq_some_iff.mp h
  have hfirst := hread _ _ _ hx
  have hsecond := hnext x hfirst.holds _ _ _ hy
  refine ⟨hsecond.holds, hsecond.suffix.trans hfirst.suffix, ?_, fun tail => ?_⟩
  · have h1 := hfirst.size_le
    have h2 := hsecond.size_le
    omega
  · simp only [hfirst.extend, Option.bind_some]
    exact hsecond.extend tail

/-- What was read, made into something else. -/
theorem Reader.Takes.map {f : α → β} (hread : read.Takes P size) (hf : ∀ x, P x → Q (f x) ∧ size' (f x) ≤ size x) :
    Reader.Takes (fun input => (read input).map fun (x, rest) => (f x, rest)) Q size' := by
  intro input y rest h
  obtain ⟨⟨x, middle⟩, hx, hy⟩ := Option.map_eq_some_iff.mp h
  obtain ⟨rfl, rfl⟩ := Prod.mk.inj hy
  have htook := hread _ _ _ hx
  obtain ⟨hQ, hle⟩ := hf x htook.holds
  refine ⟨hQ, htook.suffix, ?_, fun tail => ?_⟩
  · have := htook.size_le
    omega
  · simp only [htook.extend, Option.map_some]

/-- Of what is read, less may be said. -/
theorem Reader.Takes.mono {P' : α → Prop} {size₂ : α → Nat} (hread : read.Takes P size)
    (h : ∀ x, P x → P' x ∧ size₂ x ≤ size x) : read.Takes P' size₂ := by
  intro input x rest hx
  have htook := hread _ _ _ hx
  obtain ⟨hP, hle⟩ := h x htook.holds
  have := htook.size_le
  exact ⟨hP, htook.suffix, by omega, htook.extend⟩

/-- Nothing is taken for something of no size. -/
theorem Reader.takes_some {x : α} (hP : P x) (hsize : size x = 0) :
    Reader.Takes (fun input => some (x, input)) P size := by
  intro input y rest h
  obtain ⟨rfl, rfl⟩ := Prod.mk.inj (Option.some.inj h)
  exact ⟨hP, List.suffix_rfl, by omega, fun tail => rfl⟩

theorem Reader.takes_none : Reader.Takes (fun _ => none) P size := by
  intro input x rest h
  cases h

/-- A reader that chooses how to go on by the first byte, which counts for what is read. -/
theorem Reader.Takes.first {next : UInt8 → Reader α} (hnext : ∀ b, (next b).Takes P fun x => size x - 1) :
    Reader.Takes (fun input => match input with
      | [] => none
      | b :: input => next b input) P size := by
  intro input x rest h
  cases input with
  | nil => cases h
  | cons b input =>
    have htook := hnext b _ _ _ h
    refine ⟨htook.holds, htook.suffix.trans (List.suffix_cons ..), ?_, htook.extend⟩
    have := htook.size_le
    simp only [List.length_cons] at this ⊢
    omega

end Readers

/-! ## Headers and strings -/

theorem takes_split? (n : Nat) : Reader.Takes (Bytes.split? n) (fun front => front.length = n) List.length := by
  intro input front rest h
  obtain ⟨rfl, hlength⟩ := Bytes.split?_eq_some_iff.mp h
  refine ⟨hlength, List.suffix_append .., Nat.le_of_eq List.length_append.symm, fun tail => ?_⟩
  exact Bytes.split?_eq_some_iff.mpr ⟨List.append_assoc .., hlength⟩

theorem takes_readNat (width : Nat) : Reader.Takes (readNat width) (· < 256 ^ width) fun _ => 0 := by
  refine (takes_split? width).map fun digits hlength => ⟨?_, Nat.zero_le _⟩
  rw [← hlength]
  exact Bytes.toNat_lt digits

theorem takes_readArgument (info : Nat) : Reader.Takes (readArgument info) (· < 2 ^ 64) fun _ => 0 := by
  have hnat : ∀ width ≤ 8, Reader.Takes (readNat width) (· < 2 ^ 64) fun _ => 0 := fun width hw =>
    (takes_readNat width).mono fun n hn =>
      ⟨Nat.lt_of_lt_of_le hn (Nat.pow_le_pow_right (by decide) hw : 256 ^ width ≤ 256 ^ 8), Nat.le_refl 0⟩
  unfold readArgument
  split
  · exact Reader.takes_some (by omega) rfl
  repeat' split
  all_goals first | exact hnat _ (by decide) | exact Reader.takes_none

theorem takes_readString (info : Nat) : Reader.Takes (readString info) (fun _ => True) List.length :=
  (takes_readArgument info).bind fun n _ => (takes_split? n).mono fun _ _ => ⟨trivial, Nat.sub_le ..⟩

/-! ## Sequences -/

section Sequences

variable {P : α → Prop} {size : α → Nat} {read : Reader α}

/-- An element in front of others accounts for itself and for them. -/
theorem takes_cons {x : α} {xs : List α} (hx : P x) (hxs : ∀ y ∈ xs, P y) :
    Reader.Takes (fun input => some (x :: xs, input)) (fun ys => ∀ y ∈ ys, P y)
      fun ys => (ys.map size).sum - size x - (xs.map size).sum := by
  refine Reader.takes_some (List.forall_mem_cons.mpr ⟨hx, hxs⟩) ?_
  rw [List.map_cons, List.sum_cons]
  omega

theorem takes_readMany (hread : read.Takes P size) (n : Nat) :
    Reader.Takes (readMany read n) (fun xs => ∀ x ∈ xs, P x) fun xs => (xs.map size).sum := by
  induction n with
  | zero => exact Reader.takes_some (List.forall_mem_nil _) rfl
  | succ n ih => exact hread.bind fun x hx => ih.bind fun xs hxs => takes_cons hx hxs

theorem takes_readEntry (hread : read.Takes P size) :
    Reader.Takes (readEntry read) (fun e => P e.1 ∧ P e.2) fun e => size e.1 + size e.2 := by
  refine hread.bind fun k hk => hread.bind fun v hv => Reader.takes_some (x := (k, v)) ⟨hk, hv⟩ ?_
  simp only
  omega

/-- The elements up to a break byte, whatever bounds their number. -/
theorem takes_readUntilBreak_of_bound (hread : read.Takes P size) (n : Nat) :
    Reader.Takes (readUntilBreak read n) (fun xs => ∀ x ∈ xs, P x) fun xs => (xs.map size).sum := by
  induction n with
  | zero =>
    intro input xs rest h
    cases input <;> cases h
  | succ n ih =>
    intro input xs rest h
    cases input with
    | nil => cases h
    | cons b input =>
      rw [readUntilBreak] at h
      split at h
      · rename_i hb
        obtain ⟨rfl, rfl⟩ := Prod.mk.inj (Option.some.inj h)
        refine ⟨List.forall_mem_nil _, List.suffix_rfl, by simp, fun tail => ?_⟩
        rw [List.cons_append, readUntilBreak, if_pos hb]
      · rename_i hb
        have htook := (hread.bind fun x hx => ih.bind fun xs hxs => takes_cons hx hxs) (b :: input) xs rest h
        refine ⟨htook.holds, htook.suffix, htook.size_le, fun tail => ?_⟩
        rw [List.cons_append, readUntilBreak, if_neg hb]
        exact htook.extend tail

/-- A greater bound on the number of elements changes nothing. -/
theorem readUntilBreak_mono {n m : Nat} (hm : n ≤ m) {input : Bytes} {r : List α × Bytes}
    (h : readUntilBreak read n input = some r) : readUntilBreak read m input = some r := by
  induction n generalizing m input r with
  | zero => cases input <;> cases h
  | succ n ih =>
    obtain ⟨m, rfl⟩ := Nat.exists_eq_add_of_le' hm
    cases input with
    | nil => cases h
    | cons b input =>
      rw [readUntilBreak] at h
      rw [← Nat.add_assoc, readUntilBreak]
      split at h
      · rwa [if_pos ‹_›]
      · rw [if_neg ‹_›]
        obtain ⟨⟨x, middle⟩, hx, hrest⟩ := Option.bind_eq_some_iff.mp h
        obtain ⟨⟨xs, last⟩, hxs, hr⟩ := Option.bind_eq_some_iff.mp hrest
        refine Option.bind_eq_some_iff.mpr ⟨(x, middle), hx, Option.bind_eq_some_iff.mpr ⟨(xs, last), ?_, hr⟩⟩
        exact ih (by omega) hxs

/-- What is left begins with the break byte. -/
theorem head?_of_readUntilBreak {n : Nat} {input rest : Bytes} {xs : List α}
    (h : readUntilBreak read n input = some (xs, rest)) : rest.head? = some breakByte := by
  induction n generalizing input xs with
  | zero => cases input <;> cases h
  | succ n ih =>
    cases input with
    | nil => cases h
    | cons b input =>
      rw [readUntilBreak] at h
      split at h
      · rename_i hb
        obtain ⟨rfl, rfl⟩ := Prod.mk.inj (Option.some.inj h)
        exact congrArg some hb
      · obtain ⟨⟨x, middle⟩, hx, hrest⟩ := Option.bind_eq_some_iff.mp h
        obtain ⟨⟨ys, last⟩, hys, hy⟩ := Option.bind_eq_some_iff.mp hrest
        obtain ⟨rfl, rfl⟩ := Prod.mk.inj (Option.some.inj hy)
        exact ih hys

/-- Bounded by the length of the input, the elements are read to the end in front of any other bytes. -/
theorem takes_readUntilBreak (hread : read.Takes P size) :
    Reader.Takes (fun input => readUntilBreak read (input.length + 1) input) (fun xs => ∀ x ∈ xs, P x)
      fun xs => (xs.map size).sum := by
  intro input xs rest h
  have htook := takes_readUntilBreak_of_bound hread _ _ _ _ h
  refine ⟨htook.holds, htook.suffix, htook.size_le, fun tail => ?_⟩
  exact readUntilBreak_mono (by simp) (htook.extend tail)

/-- The break byte of an array or a map is taken off as well. -/
theorem takes_readElements (hread : read.Takes P size) (info : Nat) :
    Reader.Takes (readElements read info) (fun xs => ∀ x ∈ xs, P x) fun xs => (xs.map size).sum := by
  unfold readElements
  split
  · intro input xs rest h
    obtain ⟨⟨ys, middle⟩, hys, hy⟩ := Option.bind_eq_some_iff.mp h
    obtain ⟨rfl, rfl⟩ := Prod.mk.inj (Option.some.inj hy)
    obtain ⟨r, rfl⟩ := List.head?_eq_some_iff.mp (head?_of_readUntilBreak hys)
    have htook := takes_readUntilBreak hread _ _ _ hys
    refine ⟨htook.holds, (List.drop_suffix ..).trans htook.suffix, ?_, fun tail => ?_⟩
    · have := htook.size_le
      simp only [List.length_drop] at this ⊢
      omega
    · have hextend := htook.extend tail
      simp only at hextend ⊢
      rw [hextend]
      rfl
  · exact (takes_readArgument info).bind fun n _ => takes_readMany hread n

end Sequences

theorem takes_readChunks (start mask : UInt8) (levels : Nat) :
    Reader.Takes (readChunks start mask levels) (fun _ => True) List.length := by
  induction levels with
  | zero =>
    intro input b rest h
    rw [readChunks] at h
    split at h
    · rename_i hhead
      obtain ⟨rfl, rfl⟩ := Prod.mk.inj (Option.some.inj h)
      obtain ⟨r, rfl⟩ := List.head?_eq_some_iff.mp hhead
      exact ⟨trivial, List.suffix_rfl, by simp, fun tail => rfl⟩
    · cases h
  | succ levels ih =>
    have hchunk : ∀ b, Reader.Takes (fun input =>
        if b = start then readChunks start mask levels input else readString (b &&& ~~~mask).toNat input)
        (fun _ => True) fun chunk => chunk.length - 1 := by
      intro b
      split
      · exact ih.mono fun chunk _ => ⟨trivial, Nat.sub_le ..⟩
      · exact (takes_readString _).mono fun chunk _ => ⟨trivial, Nat.sub_le ..⟩
    exact (takes_readUntilBreak (Reader.Takes.first hchunk)).bind fun chunks _ =>
      Reader.takes_some (x := chunks.flatten) trivial (by rw [List.length_flatten, Nat.sub_self])

end SecurityKey.Cbor
