/-!
# Cutting a list into pieces

`chunks n l` is the list of consecutive pieces of `l` of length `n`, where only the last one may be shorter.
Joined, the pieces give the list back (`flatten_chunks`), they can be taken off one by one (`chunks_of_ne_nil`), no
piece is empty or longer than `n` (`length_of_mem_chunks`), all but the last are of length `n`
(`length_of_mem_dropLast_chunks`), and there are as many as it takes (`length_chunks`).
-/

namespace SecurityKey

variable {α : Type}

/-- Pieces of length `n`, at most as many as the first argument allows. -/
def chunksUpTo (n : Nat) : Nat → List α → List (List α)
  | 0, _ => []
  | _, [] => []
  | k + 1, x :: l => (x :: l).take n :: chunksUpTo n k ((x :: l).drop n)

/-- Consecutive pieces of length `n`; the last one may be shorter. -/
def chunks (n : Nat) (l : List α) : List (List α) :=
  chunksUpTo n l.length l

theorem flatten_chunksUpTo {n : Nat} (hn : 0 < n) (k : Nat) (l : List α) (h : l.length ≤ k) :
    (chunksUpTo n k l).flatten = l := by
  induction k generalizing l with
  | zero => simp_all [chunksUpTo]
  | succ k ih =>
    cases l with
    | nil => simp [chunksUpTo]
    | cons x l =>
      have : ((x :: l).drop n).length ≤ k := by
        simp only [List.length_drop, List.length_cons] at *
        omega
      rw [chunksUpTo, List.flatten_cons, ih _ this, List.take_append_drop]

/-- The pieces are the list. -/
theorem flatten_chunks {n : Nat} (hn : 0 < n) (l : List α) : (chunks n l).flatten = l :=
  flatten_chunksUpTo hn _ l (Nat.le_refl _)

/-- How many pieces are allowed does not matter when it is enough. -/
theorem chunksUpTo_eq_chunks {n : Nat} (hn : 0 < n) {k : Nat} {l : List α} (h : l.length ≤ k) :
    chunksUpTo n k l = chunks n l := by
  have hk : ∀ (k j : Nat) (l : List α), l.length ≤ k → l.length ≤ j → chunksUpTo n k l = chunksUpTo n j l := by
    intro k
    induction k with
    | zero =>
      intro j l hl _
      obtain rfl := List.length_eq_zero_iff.mp (Nat.le_zero.mp hl)
      cases j <;> rfl
    | succ k ih =>
      intro j l hl hj
      cases l with
      | nil => cases j <;> rfl
      | cons x l =>
        cases j with
        | zero => cases hj
        | succ j =>
          simp only [List.length_cons] at hl hj
          rw [chunksUpTo, chunksUpTo, ih j]
          all_goals
            rw [List.length_drop, List.length_cons]
            omega
  exact hk k l.length l h (Nat.le_refl _)

/-- The first piece and the pieces of what is left. -/
theorem chunks_of_ne_nil {n : Nat} (hn : 0 < n) {l : List α} (h : l ≠ []) :
    chunks n l = l.take n :: chunks n (l.drop n) := by
  cases l with
  | nil => exact absurd rfl h
  | cons x l =>
    rw [chunks, List.length_cons, chunksUpTo, chunksUpTo_eq_chunks hn]
    rw [List.length_drop, List.length_cons]
    omega

theorem length_of_mem_chunksUpTo {n : Nat} (hn : 0 < n) {k : Nat} {l c : List α}
    (h : c ∈ chunksUpTo n k l) : 0 < c.length ∧ c.length ≤ n := by
  induction k generalizing l with
  | zero => simp [chunksUpTo] at h
  | succ k ih =>
    cases l with
    | nil => simp [chunksUpTo] at h
    | cons x l =>
      rw [chunksUpTo, List.mem_cons] at h
      rcases h with rfl | h
      · simp only [List.length_take, List.length_cons]
        omega
      · exact ih h

/-- No piece is empty or longer than `n`. -/
theorem length_of_mem_chunks {n : Nat} (hn : 0 < n) {l c : List α} (h : c ∈ chunks n l) :
    0 < c.length ∧ c.length ≤ n :=
  length_of_mem_chunksUpTo hn h

/-- Every piece but the last one is of length `n`. -/
theorem length_of_mem_dropLast_chunks {n : Nat} (hn : 0 < n) {l c : List α} (h : c ∈ (chunks n l).dropLast) :
    c.length = n := by
  induction hk : l.length using Nat.strongRecOn generalizing l with
  | _ k ih =>
    subst hk
    cases l with
    | nil => cases h
    | cons x l =>
      have hdrop : ((x :: l).drop n).length = (x :: l).length - n := List.length_drop
      rw [chunks_of_ne_nil hn (List.cons_ne_nil x l)] at h
      rcases Nat.lt_or_ge n (x :: l).length with hlong | hshort
      · have hne : (x :: l).drop n ≠ [] := by
          rw [Ne, ← List.length_eq_zero_iff, hdrop]
          omega
        have hmore : chunks n ((x :: l).drop n) ≠ [] := by
          rw [chunks_of_ne_nil hn hne]
          exact List.cons_ne_nil _ _
        rw [List.dropLast_cons_of_ne_nil hmore, List.mem_cons] at h
        rcases h with rfl | h
        · exact List.length_take_of_le (Nat.le_of_lt hlong)
        · refine ih _ ?_ h rfl
          rw [hdrop]
          exact Nat.sub_lt (Nat.succ_pos _) hn
      · rw [List.drop_eq_nil_of_le hshort] at h
        cases h

/-- Where the length is a multiple of `n`, every piece is of length `n`. -/
theorem length_of_mem_chunks_of_dvd {n : Nat} (hn : 0 < n) {l c : List α} (hl : l.length % n = 0)
    (h : c ∈ chunks n l) : c.length = n := by
  induction hk : l.length using Nat.strongRecOn generalizing l with
  | _ k ih =>
    subst hk
    cases l with
    | nil => cases h
    | cons x l =>
      have hge : n ≤ (x :: l).length := Nat.le_of_dvd (Nat.succ_pos _) (Nat.dvd_of_mod_eq_zero hl)
      rw [chunks_of_ne_nil hn (List.cons_ne_nil x l)] at h
      rcases List.mem_cons.mp h with rfl | h
      · exact List.length_take_of_le hge
      · have hdrop : ((x :: l).drop n).length = (x :: l).length - n := List.length_drop
        refine ih _ ?_ ?_ h rfl
        · rw [hdrop]
          exact Nat.sub_lt (Nat.succ_pos _) hn
        · rw [hdrop, ← Nat.mod_eq_sub_mod hge]
          exact hl

theorem length_flatten_of_forall {n : Nat} {pieces : List (List α)} (h : ∀ c ∈ pieces, c.length = n) :
    pieces.flatten.length = pieces.length * n := by
  rw [List.length_flatten, List.map_congr_left h, List.map_const', List.sum_replicate_nat]

/-- Pieces of length `n` are the pieces of what they are joined to. -/
theorem chunks_flatten {n : Nat} (hn : 0 < n) {pieces : List (List α)} (h : ∀ c ∈ pieces, c.length = n) :
    chunks n pieces.flatten = pieces := by
  induction pieces with
  | nil => rfl
  | cons c rest ih =>
    have hc := h c (List.mem_cons_self ..)
    have hne : c ++ rest.flatten ≠ [] := by
      intro hnil
      rw [List.append_eq_nil_iff] at hnil
      rw [hnil.1] at hc
      exact absurd hc (Nat.ne_of_lt hn)
    rw [List.flatten_cons, chunks_of_ne_nil hn hne, List.take_left' hc, List.drop_left' hc,
      ih fun c h' => h c (List.mem_cons_of_mem _ h')]

/-- There are as many pieces as it takes to hold the list. -/
theorem length_chunks {n : Nat} (hn : 0 < n) (l : List α) : (chunks n l).length = (l.length + (n - 1)) / n := by
  induction h : l.length using Nat.strongRecOn generalizing l with
  | _ k ih =>
    subst h
    cases l with
    | nil =>
      have h0 : (0 + (n - 1)) / n = 0 := Nat.div_eq_of_lt (by omega)
      exact h0.symm
    | cons x l =>
      have hl : ((x :: l).drop n).length = (x :: l).length - n := List.length_drop
      have hx : (x :: l).length = l.length + 1 := rfl
      have hlt : ((x :: l).drop n).length < (x :: l).length := by omega
      rw [chunks_of_ne_nil hn (List.cons_ne_nil x l), List.length_cons, ih _ hlt _ rfl, hl]
      rcases Nat.lt_or_ge (x :: l).length n with hs | hs
      · have h0 : ((x :: l).length - n + (n - 1)) / n = 0 := Nat.div_eq_of_lt (by omega)
        have h1 : (x :: l).length + (n - 1) = l.length + n := by omega
        have h2 : l.length / n = 0 := Nat.div_eq_of_lt (by omega)
        rw [h0, h1, Nat.add_div_right _ hn, h2]
      · have h1 : (x :: l).length + (n - 1) = ((x :: l).length - n + (n - 1)) + n := by omega
        rw [h1, Nat.add_div_right _ hn]

end SecurityKey
