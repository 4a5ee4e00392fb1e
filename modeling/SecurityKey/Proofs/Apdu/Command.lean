import Mathlib.Algebra.Group.Nat.Defs
import SecurityKey.Apdu.Command

/-!
# Commands written and read back

A command has one of seven layouts: no body, a length of answer alone, data, or data and a length of answer, the last
three in either form. They are told apart by the length of the body and by its first byte.

- `Form.lengthBytes`, `Form.marker` and `Form.answerBytes` are the parts a body is made of, and a length of answer is
  read back by `Form.answer?` (`answer?_eq_some_iff`);
- a body that is decoded was written so (`written_of_decodeBody`), and a body that is written is decoded to its
  command (`decodeBody_body`);
- so the decoder takes exactly what the encoder writes (`decode_eq_ok_iff`), which makes the two inverse to each other
  (`encode_decode_inverse`).
-/

namespace SecurityKey.Apdu

/-! ## Lengths -/

namespace Form

/-- The length of the data as it is written in front of them. -/
def lengthBytes (f : Form) (n : Nat) : Bytes :=
  match f with
  | short => [UInt8.ofNat n]
  | extended => 0x00 :: Bytes.ofNat 2 n

/-- What stands in the place of data in front of the length of the answer. -/
def marker : Form → Bytes
  | short => []
  | extended => [0x00]

/-- The length of the answer as it is written behind the data; for no answer nothing is written. -/
def answerBytes (f : Form) (ne : Nat) : Bytes :=
  if ne = 0 then [] else match f with
    | short => [UInt8.ofNat ne]
    | extended => Bytes.ofNat 2 ne

/-- The length of the answer that the bytes behind the data ask for. -/
def answer? : Form → Bytes → Option Nat
  | _, [] => some 0
  | short, [le] => some (Command.shortNe le)
  | extended, [hi, lo] => some (Command.extendedNe hi lo)
  | _, _ => none

end Form

namespace Command

variable {c c' : Command} {f f' : Form} {ne : Nat}

theorem shortNe_ofNat (h0 : ne ≠ 0) (h : ne ≤ 256) : shortNe (UInt8.ofNat ne) = ne := by
  by_cases hmax : ne = 256
  · subst hmax
    rfl
  have hlt : ne < 256 := by omega
  have hne : UInt8.ofNat ne ≠ 0 := by
    intro hzero
    have hzero := congrArg UInt8.toNat hzero
    rw [UInt8.toNat_ofNat', Nat.mod_eq_of_lt hlt] at hzero
    exact h0 hzero
  rw [shortNe, if_neg hne, UInt8.toNat_ofNat', Nat.mod_eq_of_lt hlt]

theorem ofNat_shortNe (le : UInt8) : shortNe le ≠ 0 ∧ shortNe le ≤ 256 ∧ UInt8.ofNat (shortNe le) = le := by
  by_cases hzero : le = 0
  · subst hzero
    decide
  have hpos : le.toNat ≠ 0 := by
    intro h
    exact hzero (UInt8.toNat_inj.mp h)
  have hlt := le.toNat_lt
  rw [shortNe, if_neg hzero]
  exact ⟨hpos, by omega, UInt8.ofNat_toNat⟩

theorem extendedNe_ofNat (h0 : ne ≠ 0) (h : ne ≤ 65536) {hi lo : UInt8} (hb : Bytes.ofNat 2 ne = [hi, lo]) :
    extendedNe hi lo = ne := by
  have hread : Bytes.toNat [hi, lo] = ne % 256 ^ 2 := by rw [← hb, Bytes.toNat_ofNat]
  unfold extendedNe
  simp only [hread]
  split <;> omega

theorem ofNat_extendedNe (hi lo : UInt8) :
    extendedNe hi lo ≠ 0 ∧ extendedNe hi lo ≤ 65536 ∧ Bytes.ofNat 2 (extendedNe hi lo) = [hi, lo] := by
  have hwrite : Bytes.ofNat 2 (Bytes.toNat [hi, lo]) = [hi, lo] := Bytes.ofNat_toNat [hi, lo]
  have hlt : Bytes.toNat [hi, lo] < 256 ^ 2 := Bytes.toNat_lt [hi, lo]
  unfold extendedNe
  by_cases hzero : Bytes.toNat [hi, lo] = 0
  · rw [hzero] at hwrite
    rw [if_pos hzero, ← hwrite]
    decide
  · rw [if_neg hzero]
    exact ⟨hzero, by omega, hwrite⟩

theorem answer?_eq_some_iff {b : Bytes} : f.answer? b = some ne ↔ ne ≤ f.maxAnswer ∧ b = f.answerBytes ne := by
  constructor
  · intro h
    unfold Form.answer? at h
    split at h
    · cases h
      exact ⟨Nat.zero_le _, rfl⟩
    · rename_i le
      cases h
      obtain ⟨h0, hmax, hwrite⟩ := ofNat_shortNe le
      exact ⟨hmax, by rw [Form.answerBytes, if_neg h0, hwrite]⟩
    · rename_i hi lo
      cases h
      obtain ⟨h0, hmax, hwrite⟩ := ofNat_extendedNe hi lo
      exact ⟨hmax, by rw [Form.answerBytes, if_neg h0, hwrite]⟩
    · cases h
  · rintro ⟨hmax, rfl⟩
    by_cases h0 : ne = 0
    · subst h0
      cases f <;> rfl
    cases f with
    | short => simp only [Form.answerBytes, if_neg h0, Form.answer?, shortNe_ofNat h0 hmax]
    | extended =>
      have hread := extendedNe_ofNat h0 hmax rfl
      simp only [Form.answerBytes, if_neg h0]
      exact congrArg some hread

/-! ## Bodies -/

/-- The data and lengths in a form. -/
def body (c : Command) : Form → Bytes
  | .short => c.shortBody
  | .extended => c.extendedBody

/-- A command is encoded when its lengths fit the form, and its bytes are its header and its body. -/
theorem encode_eq_ok_iff {b : Bytes} : c.encode f = .ok b ↔
    c.data.length ≤ f.maxData ∧ c.ne ≤ f.maxAnswer ∧ c.headerBytes ++ c.body f = b := by
  unfold encode
  by_cases hdata : f.maxData < c.data.length
  · simp only [if_pos hdata, reduceCtorEq, false_iff]
    omega
  by_cases hne : f.maxAnswer < c.ne
  · simp only [if_neg hdata, if_pos hne, reduceCtorEq, false_iff]
    omega
  rw [if_neg hdata, if_neg hne, Except.ok.injEq]
  constructor
  · intro h
    exact ⟨Nat.not_lt.mp hdata, Nat.not_lt.mp hne, by cases f <;> exact h⟩
  · rintro ⟨-, -, h⟩
    cases f <;> exact h

/-- The header of a command alone. -/
def bare (c : Command) : Command := header c.cla c.ins c.p1 c.p2

/-- A command is put together from its parts. -/
theorem withNe_withData_bare (c : Command) : (c.bare.withData c.data).withNe c.ne = c := by
  obtain ⟨cla, ins, p1, p2, data, ne, hne⟩ := c
  simp only [bare, header, withData, withNe, Nat.min_eq_left hne]

theorem body_of_data_ne_nil (h : c.data ≠ []) :
    c.body f = f.lengthBytes c.data.length ++ (c.data ++ f.answerBytes c.ne) := by
  have hempty : c.data.isEmpty = false := List.isEmpty_eq_false_iff.mpr h
  cases f with
  | short => simp [body, shortBody, hempty, Form.lengthBytes, Form.answerBytes]
  | extended => simp [body, extendedBody, hempty, Form.lengthBytes, Form.answerBytes]

theorem body_of_data_eq_nil (h : c.data = []) :
    c.body f = if c.ne = 0 then [] else f.marker ++ f.answerBytes c.ne := by
  cases f with
  | short => by_cases h0 : c.ne = 0 <;> simp [body, shortBody, h, h0, Form.marker, Form.answerBytes]
  | extended => by_cases h0 : c.ne = 0 <;> simp [body, extendedBody, h, h0, Form.marker, Form.answerBytes]

theorem withNe_zero (h : c.ne = 0) : c.withNe 0 = c := by
  obtain ⟨cla, ins, p1, p2, data, ne, hne⟩ := c
  cases h
  rfl

/-- Behind the data stands the length of an answer, or nothing. -/
theorem decodeData_eq (hc : c.ne = 0) (n : Nat) (rest : Bytes) (f : Form) : decodeData c n rest f =
    if n ≤ rest.length then
      (f.answer? (rest.drop n)).map fun ne => ((c.withData (rest.take n)).withNe ne, f)
    else none := by
  have hnil : rest.drop n = [] ↔ rest.length ≤ n := List.drop_eq_nil_iff
  unfold decodeData
  cases hd : rest.drop n with
  | nil =>
    have hle := hnil.mp hd
    by_cases hlength : rest.length = n
    · have htake : rest.take n = rest := List.take_of_length_le hle
      have hwhole : (c.withData rest).withNe 0 = c.withData rest := withNe_zero hc
      cases f <;> simp [hlength, htake, hwhole, Form.answer?]
    · cases f <;> simp [hlength] <;> omega
  | cons x tail =>
    have hlt : n ≤ rest.length := by
      have hne : ¬ rest.length ≤ n := by
        intro hle
        rw [hnil.mpr hle] at hd
        cases hd
      omega
    rw [if_pos hlt]
    cases tail with
    | nil => cases f <;> rfl
    | cons y tail => cases tail <;> cases f <;> rfl

/-! ## Decoding -/

theorem maxAnswer_le (f : Form) : f.maxAnswer ≤ 65536 := by
  cases f <;> decide

/-- Data and the length of an answer are found in the command that is made of them. -/
theorem parts_withNe_withData (c : Command) (data : Bytes) (h : ne ≤ f.maxAnswer) :
    ((c.withData data).withNe ne).data = data ∧ ((c.withData data).withNe ne).ne = ne ∧
      ((c.withData data).withNe ne).bare = c.bare :=
  ⟨rfl, Nat.min_eq_left (Nat.le_trans h (maxAnswer_le f)), rfl⟩

/-- Data of an announced length and what is behind them were written so. -/
theorem of_decodeData {n : Nat} {rest : Bytes} (hc : c.ne = 0) (h : decodeData c n rest f = some (c', f')) :
    f' = f ∧ c'.bare = c.bare ∧ c'.data.length = n ∧ c'.ne ≤ f.maxAnswer ∧ c'.data ++ f.answerBytes c'.ne = rest := by
  rw [decodeData_eq hc] at h
  split at h
  · rename_i hle
    obtain ⟨ne, hanswer, hmade⟩ := Option.map_eq_some_iff.mp h
    obtain ⟨rfl, rfl⟩ := Prod.mk.inj hmade
    obtain ⟨hmax, hdrop⟩ := answer?_eq_some_iff.mp hanswer
    obtain ⟨hdata, hne, hbare⟩ := parts_withNe_withData c (rest.take n) hmax
    rw [hdata, hne, ← hdrop]
    exact ⟨rfl, hbare, List.length_take_of_le hle, hmax, List.take_append_drop n rest⟩
  · cases h

/-- Data and the length of an answer are read back. -/
theorem decodeData_append (hc : c.ne = 0) (data : Bytes) (h : ne ≤ f.maxAnswer) :
    decodeData c data.length (data ++ f.answerBytes ne) f = some ((c.withData data).withNe ne, f) := by
  have hanswer : f.answer? (f.answerBytes ne) = some ne := answer?_eq_some_iff.mpr ⟨h, rfl⟩
  rw [decodeData_eq hc, if_pos (by simp), List.drop_left, List.take_left, hanswer]
  rfl

/-- The command has the header of another, lengths that fit the form and the bytes as its body in this form; and it
is not a command with nothing to say in the extended form. -/
structure Written (front c : Command) (f : Form) (bytes : Bytes) : Prop where
  bare : c.bare = front.bare
  data_le : c.data.length ≤ f.maxData
  answer_le : c.ne ≤ f.maxAnswer
  body : c.body f = bytes
  told : f = .extended → c.data ≠ [] ∨ c.ne ≠ 0

section Written

variable {front : Command} (hdata : front.data = []) (hne : front.ne = 0) {bytes : Bytes}

include hdata hne

theorem written_nil : Written front front .short [] where
  bare := rfl
  data_le := by simp [hdata]
  answer_le := by simp [hne]
  body := by rw [body_of_data_eq_nil hdata, if_pos hne]
  told := nofun

omit hne in
/-- A command without data. -/
theorem written_answer (h : f.answer? bytes = some ne) (h0 : ne ≠ 0) :
    Written front (front.withNe ne) f (f.marker ++ bytes) := by
  obtain ⟨hmax, rfl⟩ := answer?_eq_some_iff.mp h
  have hmin : (front.withNe ne).ne = ne := Nat.min_eq_left (Nat.le_trans hmax (maxAnswer_le f))
  have hnil : (front.withNe ne).data = [] := hdata
  refine ⟨rfl, by simp [hnil], by rwa [hmin], ?_, fun _ => .inr (by rwa [hmin])⟩
  rw [body_of_data_eq_nil hnil, hmin, if_neg h0]

omit hdata in
/-- A command with data. -/
theorem written_data {n : Nat} (h : decodeData front n bytes f = some (c, f')) (hn : n ≠ 0) (hmax : n ≤ f.maxData) :
    f' = f ∧ Written front c f (f.lengthBytes n ++ bytes) := by
  obtain ⟨rfl, hbare, rfl, hanswer, rfl⟩ := of_decodeData hne h
  have hnil : c.data ≠ [] := by
    intro hempty
    rw [hempty] at hn
    exact hn rfl
  refine ⟨rfl, hbare, hmax, hanswer, ?_, fun _ => .inl hnil⟩
  rw [body_of_data_ne_nil hnil]

/-- What is decoded was written so. -/
theorem written_of_decodeBody (h : decodeBody front bytes = some (c, f)) : Written front c f bytes := by
  unfold decodeBody at h
  split at h
  · cases h
    exact written_nil hdata hne
  · rename_i le
    cases h
    exact written_answer (f := .short) hdata rfl (ofNat_shortNe le).1
  · rename_i hi lo rest
    split at h
    · rename_i hrest
      cases h
      cases List.isEmpty_iff.mp hrest
      exact written_answer (f := .extended) hdata rfl (ofNat_extendedNe hi lo).1
    · simp only at h
      split at h
      · cases h
      · rename_i hn
        have hlt : Bytes.toNat [hi, lo] < 256 ^ 2 := Bytes.toNat_lt [hi, lo]
        have hmax : Bytes.toNat [hi, lo] ≤ Form.extended.maxData := by
          rw [Form.maxData]
          omega
        have hlength : Bytes.ofNat 2 (Bytes.toNat [hi, lo]) = [hi, lo] := Bytes.ofNat_toNat [hi, lo]
        obtain ⟨rfl, hwritten⟩ := written_data hne h hn hmax
        rwa [Form.lengthBytes, hlength] at hwritten
  · cases h
  · rename_i length rest _ _ hzero
    have hn : length.toNat ≠ 0 := by
      intro h0
      exact hzero (UInt8.toNat_inj.mp h0)
    obtain ⟨rfl, hwritten⟩ := written_data hne h hn (Nat.le_of_lt_succ length.toNat_lt)
    rwa [Form.lengthBytes, UInt8.ofNat_toNat] at hwritten

end Written

/-- The length of an answer is read in the place of data. -/
theorem decodeBody_marker {b : Bytes} (h : f.answer? b = some ne) (h0 : ne ≠ 0) :
    decodeBody c (f.marker ++ b) = some (c.withNe ne, f) := by
  unfold Form.answer? at h
  split at h
  · cases h
    exact absurd rfl h0
  · cases h
    rfl
  · cases h
    rfl
  · cases h

/-- The length of data is read in front of them. -/
theorem decodeBody_lengthBytes {n : Nat} (hn : n ≠ 0) (hmax : n ≤ f.maxData) {rest : Bytes} (hrest : rest ≠ []) :
    decodeBody c (f.lengthBytes n ++ rest) = decodeData c n rest f := by
  obtain ⟨x, tail, rfl⟩ := List.exists_cons_of_ne_nil hrest
  cases f with
  | short =>
    have hlt : n < 256 := Nat.lt_succ_of_le hmax
    have hback : (UInt8.ofNat n).toNat = n := by rw [UInt8.toNat_ofNat', Nat.mod_eq_of_lt hlt]
    have hne : UInt8.ofNat n ≠ 0 := by
      intro hzero
      rw [hzero] at hback
      exact hn hback.symm
    simp only [Form.lengthBytes, List.singleton_append]
    rw [decodeBody, hback]
    · nofun
    · intro hi lo rest hzero
      exact absurd hzero hne
    · exact hne
  | extended =>
    have hlt : n < 256 ^ 2 := by
      rw [Form.maxData] at hmax
      omega
    have hback : Bytes.toNat (Bytes.ofNat 2 n) = n := by rw [Bytes.toNat_ofNat, Nat.mod_eq_of_lt hlt]
    obtain ⟨hi, lo, hpair⟩ : ∃ hi lo, Bytes.ofNat 2 n = [hi, lo] := ⟨_, _, rfl⟩
    rw [hpair] at hback
    simp [Form.lengthBytes, hpair, decodeBody, hback, hn]

/-- A body is decoded to its command, in the form it is written in if there is something to say. -/
theorem decodeBody_body (hdata : c.data.length ≤ f.maxData) (hne : c.ne ≤ f.maxAnswer)
    (htold : f = .extended → c.data ≠ [] ∨ c.ne ≠ 0) : decodeBody c.bare (c.body f) = some (c, f) := by
  have hmade := withNe_withData_bare c
  by_cases hnil : c.data = []
  · rw [hnil] at hmade
    rw [body_of_data_eq_nil hnil]
    by_cases h0 : c.ne = 0
    · rw [h0] at hmade
      rw [if_pos h0]
      cases f with
      | short => exact congrArg (fun c => some (c, Form.short)) hmade
      | extended => simp [hnil, h0] at htold
    · rw [if_neg h0, decodeBody_marker (answer?_eq_some_iff.mpr ⟨hne, rfl⟩) h0]
      exact congrArg (fun c => some (c, f)) hmade
  · have hlength : c.data.length ≠ 0 := by
      intro h
      exact hnil (List.length_eq_zero_iff.mp h)
    have hrest : c.data ++ f.answerBytes c.ne ≠ [] := by simp [hnil]
    rw [body_of_data_ne_nil hnil, decodeBody_lengthBytes hlength hdata hrest, decodeData_append rfl _ hne, hmade]

/-- A command is decoded from its bytes exactly when they are what it is encoded to in the form found, and the form is
the short one where there is nothing to say. -/
theorem decode_eq_ok_iff {b : Bytes} :
    decode b = .ok (c, f) ↔ c.encode f = .ok b ∧ (f = .extended → c.data ≠ [] ∨ c.ne ≠ 0) := by
  rw [encode_eq_ok_iff]
  constructor
  · intro h
    unfold decode at h
    simp only at h
    split at h
    · rename_i r hr
      cases h
      split at hr
      · rename_i cla ins p1 p2 bytes
        obtain ⟨hbare, hdata, hne, hbody, htold⟩ := written_of_decodeBody rfl rfl hr
        refine ⟨⟨hdata, hne, ?_⟩, htold⟩
        have hheader : c.headerBytes = [cla, ins, p1, p2] := congrArg headerBytes hbare
        rw [hheader, hbody]
        rfl
      · cases hr
    · cases h
  · rintro ⟨⟨hdata, hne, rfl⟩, htold⟩
    have hbody : decodeBody (header c.cla c.ins c.p1 c.p2) (c.body f) = some (c, f) := decodeBody_body hdata hne htold
    unfold decode headerBytes
    simp only [List.cons_append, List.nil_append, hbody]

/-- Encoding fails exactly when the data or the answer exceed the form. -/
theorem encode_eq_error_iff : (∃ e, c.encode f = .error e) ↔ f.maxData < c.data.length ∨ f.maxAnswer < c.ne := by
  unfold encode
  by_cases hdata : f.maxData < c.data.length
  · simp [hdata]
  by_cases hne : f.maxAnswer < c.ne <;> simp [hdata, hne]

/-- Where the extended form is supported every command is sent whose data can be announced. -/
theorem exists_toBytes (h : c.data.length ≤ 65535) : ∃ b, c.toBytes true = .ok b := by
  have hne := c.ne_le
  unfold toBytes formFor
  by_cases hfits : c.fits .short = true
  · simp only [fits, Bool.and_eq_true, decide_eq_true_eq] at hfits
    exact ⟨_, encode_eq_ok_iff.mpr ⟨by simp [fits, hfits], by simp [fits, hfits], rfl⟩⟩
  · simp only [hfits, Bool.not_false, Bool.and_true, if_true]
    exact ⟨_, encode_eq_ok_iff.mpr ⟨h, hne, rfl⟩⟩

/-- **Encoding and decoding are inverse to each other.** What is encoded is decoded to the same command and form, but
for a command with nothing to say, which is always in the short form; what is decoded is encoded to the same bytes.
Encoding fails exactly when a length exceeds the form, and never in the form chosen where the extended one is
supported, as long as the data can be announced at all. -/
theorem encode_decode_inverse :
    (∀ (c : Command) (f : Form) (b : Bytes), c.encode f = .ok b →
      decode b = .ok (c, if c.data = [] ∧ c.ne = 0 then .short else f)) ∧
    (∀ (b : Bytes) (c : Command) (f : Form), decode b = .ok (c, f) → c.encode f = .ok b) ∧
    (∀ (c : Command) (f : Form),
      (∃ e, c.encode f = .error e) ↔ f.maxData < c.data.length ∨ f.maxAnswer < c.ne) ∧
    ∀ c : Command, c.data.length ≤ 65535 → ∃ b, c.toBytes true = .ok b := by
  refine ⟨?_, ?_, fun c f => encode_eq_error_iff, fun c => exists_toBytes⟩
  · intro c f b h
    by_cases hnothing : c.data = [] ∧ c.ne = 0
    · rw [if_pos hnothing]
      obtain ⟨hdata, hne⟩ := hnothing
      -- there is no body in either form
      have hbody : ∀ f, c.body f = [] := by
        intro f
        rw [body_of_data_eq_nil hdata, if_pos hne]
      obtain ⟨-, -, rfl⟩ := encode_eq_ok_iff.mp h
      refine decode_eq_ok_iff.mpr ⟨encode_eq_ok_iff.mpr ⟨?_, ?_, ?_⟩, nofun⟩
      · simp [hdata]
      · simp [hne]
      · rw [hbody, hbody]
    · rw [if_neg hnothing]
      refine decode_eq_ok_iff.mpr ⟨h, fun _ => ?_⟩
      exact Decidable.not_and_iff_not_or_not.mp hnothing
  · intro b c f h
    exact (decode_eq_ok_iff.mp h).1

/-- Selecting an application asks for 256 bytes, written as zero. -/
theorem encode_decode_inverse_select :
    let c := select [0xa0, 0x00]
    let b : Bytes := [0x00, 0xa4, 0x04, 0x00, 0x02, 0xa0, 0x00, 0x00]
    c.encode .short = .ok b ∧ decode b = .ok (c, .short) ∧ c.data.length ≤ 65535 ∧ ∃ b, c.toBytes true = .ok b := by
  obtain ⟨hdecode, hencode, -, hsend⟩ := encode_decode_inverse
  have hwritten : (select [0xa0, 0x00]).encode .short = .ok [0x00, 0xa4, 0x04, 0x00, 0x02, 0xa0, 0x00, 0x00] := rfl
  have hread := hdecode _ _ _ hwritten
  exact ⟨hencode _ _ _ hread, hread, by decide, hsend _ (by decide)⟩

end Command

end SecurityKey.Apdu
