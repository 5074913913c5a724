import Mathlib
import LightNfs.Core.Names

/-!
# UTF-8 component names

`valid_utf8` decides exactly the strings written in shortest-form UTF-8 without U+FFFE and U+FFFF.
The encoder is the one of Lean's own strings, whose characters are the Unicode scalar values; one
sequence is compared with it length class by length class, on numbers.
-/

namespace LightNfs

/-- The scalar values a name may hold: all but two noncharacters. -/
def NameChar (c : Char) : Prop := c.toNat ≠ 0xFFFE ∧ c.toNat ≠ 0xFFFF

/-- What `valid_utf8` is for. -/
def EncodesName (bytes : Bytes) : Prop :=
  ∃ cs : List Char, (∀ c ∈ cs, NameChar c) ∧ bytes = cs.flatMap String.utf8EncodeChar

/-! ### The bytes the loop reads -/

/-- The loop over `bytes[i + k]`; a read outside the string has no result. -/
def continuationsAt (bytes : Bytes) (i : Nat) : List Nat → Option Bool
  | [] => some true
  | k :: ks => bytes[i + k]?.bind fun b =>
    if b &&& 0xC0 == 0x80 then continuationsAt bytes i ks else some false

/-- `guard && test(bytes[j])`: the byte is read only where the guard holds. -/
def guarded (guard : Bool) (read : Option UInt8) (test : UInt8 → Option Bool) : Option Bool :=
  if guard then read.bind test else some false

/-- The exceptions of one sequence, in the order of the source: whether one of them rejects it. -/
def exceptionAt (bytes : Bytes) (i : Nat) (c : UInt8) (len : Nat) : Option Bool :=
  if len == 2 && c < 0xC2 then some true else
  (guarded (len == 3 && c == 0xE0) bytes[i + 1]? fun b => some (b < 0xA0)).bind fun overlong =>
  if overlong then some true else
  (guarded (len == 3 && c == 0xED) bytes[i + 1]? fun b => some (b > 0x9F)).bind fun surrogate =>
  if surrogate then some true else
  (guarded (len == 3 && c == 0xEF) bytes[i + 1]? fun b => guarded (b == 0xBF) bytes[i + 2]? fun d =>
    some (d == 0xBE || d == 0xBF)).bind fun nonchar =>
  if nonchar then some true else
  (guarded (len == 4 && c == 0xF0) bytes[i + 1]? fun b => some (b < 0x90)).bind fun overlong4 =>
  if overlong4 then some true else
  if len == 4 && c > 0xF4 then some true else
  guarded (len == 4 && c == 0xF4) bytes[i + 1]? fun b => some (b > 0x8F)

/-- `valid_utf8` with every access to the span checked. -/
def validUtf8At (bytes : Bytes) : Nat → Nat → Option Bool
  | 0, i => some (!(i < bytes.length))
  | fuel + 1, i =>
    if i < bytes.length then
      bytes[i]?.bind fun c =>
        let len := utf8Length c
        if len = 0 ∨ i + len > bytes.length then some false
        else (continuationsAt bytes i (List.range' 1 (len - 1))).bind fun tail =>
          if tail then (exceptionAt bytes i c len).bind fun bad =>
            if bad then some false else validUtf8At bytes fuel (i + len)
          else some false
    else some true

/-! ### Bytes as numbers -/

variable (fuel : Nat) (c : UInt8) (rest : Bytes)

theorem utf8Length_toNat : utf8Length c =
    if c.toNat < 128 then 1 else if c.toNat < 192 then 0 else if c.toNat < 224 then 2
    else if c.toNat < 240 then 3 else if c.toNat < 248 then 4 else 0 := by
  revert c
  decide +kernel

theorem utf8Length_le : utf8Length c ≤ 4 := by
  rw [utf8Length_toNat]
  split_ifs <;> omega

theorem continuation_toNat (b : UInt8) :
    (b &&& 0xC0 == 0x80) = decide (128 ≤ b.toNat ∧ b.toNat < 192) := by
  revert b
  decide +kernel

theorem utf8Sequence_two (c b : UInt8) : utf8Sequence c [b] 2 = true ↔
    (128 ≤ b.toNat ∧ b.toNat < 192) ∧ 0xC2 ≤ c.toNat := by
  simp [utf8Sequence, continuation_toNat, UInt8.le_iff_toNat_le]

theorem utf8Sequence_three (c b d : UInt8) : utf8Sequence c [b, d] 3 = true ↔
    (128 ≤ b.toNat ∧ b.toNat < 192) ∧ (128 ≤ d.toNat ∧ d.toNat < 192) ∧
    (c.toNat = 0xE0 → 0xA0 ≤ b.toNat) ∧ (c.toNat = 0xED → b.toNat ≤ 0x9F) ∧
    (c.toNat = 0xEF → b.toNat = 0xBF → d.toNat ≠ 0xBE ∧ d.toNat ≠ 0xBF) := by
  simp only [utf8Sequence, continuation_toNat, List.all_cons, List.all_nil]
  simp [← UInt8.toNat_inj, UInt8.lt_iff_toNat_lt]
  grind

theorem utf8Sequence_four (c b d e : UInt8) : utf8Sequence c [b, d, e] 4 = true ↔
    (128 ≤ b.toNat ∧ b.toNat < 192) ∧ (128 ≤ d.toNat ∧ d.toNat < 192) ∧
    (128 ≤ e.toNat ∧ e.toNat < 192) ∧
    (c.toNat = 0xF0 → 0x90 ≤ b.toNat) ∧ c.toNat ≤ 0xF4 ∧ (c.toNat = 0xF4 → b.toNat ≤ 0x8F) := by
  simp only [utf8Sequence, continuation_toNat, List.all_cons, List.all_nil]
  simp [← UInt8.toNat_inj, UInt8.lt_iff_toNat_lt]
  grind

/-! ### One sequence and one character -/

/-- A sequence the loop passes over. -/
def Sequence (rest : Bytes) : Prop :=
  utf8Length c = rest.length + 1 ∧ utf8Sequence c rest (rest.length + 1) = true

theorem char_valid (c : Char) : c.toNat < 0xD800 ∨ 0xDFFF < c.toNat ∧ c.toNat < 0x110000 :=
  c.valid

theorem encode_one {c : Char} (h : c.toNat ≤ 0x7F) :
    String.utf8EncodeChar c = [UInt8.ofNat c.toNat] := by
  have hv : c.val.toNat ≤ 0x7F := h
  simp only [String.utf8EncodeChar, if_pos hv, Char.toNat]

theorem encode_two {c : Char} (hlo : 0x7F < c.toNat) (h : c.toNat ≤ 0x7FF) :
    String.utf8EncodeChar c =
      [UInt8.ofNat (c.toNat / 64 % 32 + 192), UInt8.ofNat (c.toNat % 64 + 128)] := by
  have h1 : ¬ c.val.toNat ≤ 0x7F := Nat.not_le.2 hlo
  have h2 : c.val.toNat ≤ 0x7FF := h
  simp only [String.utf8EncodeChar, if_neg h1, if_pos h2, Char.toNat]

theorem encode_three {c : Char} (hlo : 0x7FF < c.toNat) (h : c.toNat ≤ 0xFFFF) :
    String.utf8EncodeChar c = [UInt8.ofNat (c.toNat / 4096 % 16 + 224),
      UInt8.ofNat (c.toNat / 64 % 64 + 128), UInt8.ofNat (c.toNat % 64 + 128)] := by
  have h1 : ¬ c.val.toNat ≤ 0x7F := Nat.not_le.2 (Nat.lt_trans (by decide) hlo)
  have h2 : ¬ c.val.toNat ≤ 0x7FF := Nat.not_le.2 hlo
  have h3 : c.val.toNat ≤ 0xFFFF := h
  simp only [String.utf8EncodeChar, if_neg h1, if_neg h2, if_pos h3, Char.toNat]

theorem encode_four {c : Char} (hlo : 0xFFFF < c.toNat) :
    String.utf8EncodeChar c = [UInt8.ofNat (c.toNat / 262144 % 8 + 240),
      UInt8.ofNat (c.toNat / 4096 % 64 + 128), UInt8.ofNat (c.toNat / 64 % 64 + 128),
      UInt8.ofNat (c.toNat % 64 + 128)] := by
  have h1 : ¬ c.val.toNat ≤ 0x7F := Nat.not_le.2 (Nat.lt_trans (by decide) hlo)
  have h2 : ¬ c.val.toNat ≤ 0x7FF := Nat.not_le.2 (Nat.lt_trans (by decide) hlo)
  have h3 : ¬ c.val.toNat ≤ 0xFFFF := Nat.not_le.2 hlo
  simp only [String.utf8EncodeChar, if_neg h1, if_neg h2, if_neg h3, Char.toNat]

/-- The encoding of an admissible character passes the checks. -/
theorem sequence_of_char {ch : Char} (hname : NameChar ch) :
    ∃ c rest, String.utf8EncodeChar ch = c :: rest ∧ Sequence c rest := by
  obtain ⟨ne1, ne2⟩ := hname
  have hvalid := char_valid ch
  generalize hv : ch.toNat = v at *
  by_cases one : v ≤ 0x7F
  · refine ⟨_, _, encode_one (hv ▸ one), ?_, ?_⟩
    · rw [utf8Length_toNat, UInt8.toNat_ofNat', hv, if_pos (by omega)]
      rfl
    · simp [utf8Sequence]
  by_cases two : v ≤ 0x7FF
  · refine ⟨_, _, encode_two (by omega) (hv ▸ two), ?_, ?_⟩
    · rw [utf8Length_toNat, UInt8.toNat_ofNat', hv]
      simp only [List.length_cons, List.length_nil]
      split_ifs <;> omega
    · refine (utf8Sequence_two _ _).2 ?_
      simp only [UInt8.toNat_ofNat', hv]
      omega
  by_cases three : v ≤ 0xFFFF
  · refine ⟨_, _, encode_three (by omega) (hv ▸ three), ?_, ?_⟩
    · rw [utf8Length_toNat, UInt8.toNat_ofNat', hv]
      simp only [List.length_cons, List.length_nil]
      split_ifs <;> omega
    · refine (utf8Sequence_three _ _ _).2 ?_
      simp only [UInt8.toNat_ofNat', hv]
      omega
  · refine ⟨_, _, encode_four (by omega), ?_, ?_⟩
    · rw [utf8Length_toNat, UInt8.toNat_ofNat', hv]
      simp only [List.length_cons, List.length_nil]
      split_ifs <;> omega
    · refine (utf8Sequence_four _ _ _ _).2 ?_
      simp only [UInt8.toNat_ofNat', hv]
      omega

/-- A character with a given valid number. -/
theorem exists_char {v : Nat} (hvalid : v < 0xD800 ∨ 0xDFFF < v ∧ v < 0x110000) :
    ∃ ch : Char, ch.toNat = v := by
  refine ⟨Char.ofNat v, ?_⟩
  rw [Char.toNat_ofNat, if_pos hvalid]

theorem ofNat_eq_byte {b : UInt8} {n : Nat} (h : n = b.toNat) : UInt8.ofNat n = b := by
  rw [h, UInt8.ofNat_toNat]

/-- A sequence that passes the checks is the encoding of an admissible character. -/
theorem char_of_sequence {c : UInt8} {rest : Bytes} (hseq : Sequence c rest) :
    ∃ ch, NameChar ch ∧ String.utf8EncodeChar ch = c :: rest := by
  obtain ⟨len, checks⟩ := hseq
  have hrange := utf8Length_toNat c
  have hbound := utf8Length_le c
  rcases rest with _ | ⟨b, _ | ⟨d, _ | ⟨e, _ | ⟨f, rest⟩⟩⟩⟩
  · have hc : c.toNat < 128 := by
      rw [len] at hrange
      simp only [List.length_nil] at hrange
      split_ifs at hrange <;> omega
    obtain ⟨ch, hch⟩ := exists_char (v := c.toNat) (by omega)
    refine ⟨ch, ⟨by omega, by omega⟩, ?_⟩
    rw [encode_one (by omega), ofNat_eq_byte hch]
  · have hc : 192 ≤ c.toNat ∧ c.toNat < 224 := by
      rw [len] at hrange
      simp only [List.length_cons, List.length_nil] at hrange
      split_ifs at hrange <;> omega
    have hparts := (utf8Sequence_two c b).1 checks
    obtain ⟨ch, hch⟩ := exists_char (v := (c.toNat - 192) * 64 + (b.toNat - 128)) (by omega)
    refine ⟨ch, ⟨by omega, by omega⟩, ?_⟩
    rw [encode_two (by omega) (by omega), ofNat_eq_byte (b := c) (by omega),
      ofNat_eq_byte (b := b) (by omega)]
  · have hc : 224 ≤ c.toNat ∧ c.toNat < 240 := by
      rw [len] at hrange
      simp only [List.length_cons, List.length_nil] at hrange
      split_ifs at hrange <;> omega
    have hparts := (utf8Sequence_three c b d).1 checks
    obtain ⟨ch, hch⟩ := exists_char
      (v := (c.toNat - 224) * 4096 + (b.toNat - 128) * 64 + (d.toNat - 128)) (by omega)
    refine ⟨ch, ⟨by omega, by omega⟩, ?_⟩
    rw [encode_three (by omega) (by omega), ofNat_eq_byte (b := c) (by omega),
      ofNat_eq_byte (b := b) (by omega), ofNat_eq_byte (b := d) (by omega)]
  · have hc : 240 ≤ c.toNat ∧ c.toNat < 248 := by
      rw [len] at hrange
      simp only [List.length_cons, List.length_nil] at hrange
      split_ifs at hrange <;> omega
    have hparts := (utf8Sequence_four c b d e).1 checks
    obtain ⟨ch, hch⟩ := exists_char (v := (c.toNat - 240) * 262144 + (b.toNat - 128) * 4096 +
      (d.toNat - 128) * 64 + (e.toNat - 128)) (by omega)
    refine ⟨ch, ⟨by omega, by omega⟩, ?_⟩
    rw [encode_four (by omega), ofNat_eq_byte (b := c) (by omega), ofNat_eq_byte (b := b) (by omega),
      ofNat_eq_byte (b := d) (by omega), ofNat_eq_byte (b := e) (by omega)]
  · simp only [List.length_cons] at len
    omega

/-! ### The loop -/

/-- One round: the string starts with a sequence and the rest is accepted. -/
theorem validUtf8From_cons :
    validUtf8From (fuel + 1) (c :: rest) = true ↔
      ∃ s t, rest = s ++ t ∧ Sequence c s ∧ validUtf8From fuel t = true := by
  simp only [validUtf8From]
  constructor
  · intro h
    split at h
    · cases h
    next fits =>
      rw [not_or] at fits
      rw [Bool.and_eq_true] at h
      refine ⟨_, _, (List.take_append_drop (utf8Length c - 1) rest).symm, ?_, h.2⟩
      have hsize : (rest.take (utf8Length c - 1)).length + 1 = utf8Length c := by
        rw [List.length_take]
        omega
      exact ⟨hsize.symm, hsize.symm ▸ h.1⟩
  · rintro ⟨s, t, rfl, ⟨hsize, checks⟩, accepted⟩
    have htake : utf8Length c - 1 = s.length := by omega
    rw [if_neg (by rw [List.length_append]; omega), htake, List.take_left, List.drop_left, hsize, checks,
      accepted]
    rfl

theorem encodesName_cons : EncodesName (c :: rest) ↔
    ∃ s t, rest = s ++ t ∧ Sequence c s ∧ EncodesName t := by
  constructor
  · rintro ⟨cs, names, eq⟩
    cases cs with
    | nil => cases eq
    | cons ch cs =>
      obtain ⟨c', s, encoded, seq⟩ := sequence_of_char (names ch List.mem_cons_self)
      rw [List.flatMap_cons, encoded, List.cons_append] at eq
      obtain ⟨rfl, rfl⟩ := List.cons.inj eq
      exact ⟨s, _, rfl, seq, cs, fun x hx => names x (List.mem_cons_of_mem _ hx), rfl⟩
  · rintro ⟨s, t, rfl, seq, cs, names, rfl⟩
    obtain ⟨ch, name, encoded⟩ := char_of_sequence seq
    refine ⟨ch :: cs, List.forall_mem_cons.2 ⟨name, names⟩, ?_⟩
    rw [List.flatMap_cons, encoded, List.cons_append]

/-- With a round for each byte the loop decides the encodings. -/
theorem validUtf8From_iff (bytes : Bytes) (henough : bytes.length ≤ fuel) :
    validUtf8From fuel bytes = true ↔ EncodesName bytes := by
  induction fuel generalizing bytes with
  | zero =>
    cases List.length_eq_zero_iff.1 (Nat.le_zero.1 henough)
    exact ⟨fun _ => ⟨[], List.forall_mem_nil _, rfl⟩, fun _ => rfl⟩
  | succ fuel ih =>
    cases bytes with
    | nil => exact ⟨fun _ => ⟨[], List.forall_mem_nil _, rfl⟩, fun _ => rfl⟩
    | cons c rest =>
      rw [validUtf8From_cons, encodesName_cons]
      refine exists_congr fun s => exists_congr fun t => and_congr_right fun eq =>
        and_congr_right fun _ => ih t ?_
      rw [eq, List.length_cons, List.length_append] at henough
      omega

/-! ### No read past the end -/

/-- The bytes of a sequence that fits are there to be read. -/
theorem read_sequence {bytes rest : Bytes} {i : Nat} {c : UInt8} (hat_i : bytes.drop i = c :: rest)
    (k : Nat) : bytes[i + (k + 1)]? = rest[k]? := by
  rw [← List.getElem?_drop, hat_i, List.getElem?_cons_succ]

theorem continuationsAt_eq {bytes rest : Bytes} {i : Nat} {c : UInt8}
    (hat_i : bytes.drop i = c :: rest) (n : Nat) : ∀ k, k + n ≤ rest.length →
    continuationsAt bytes i (List.range' (k + 1) n) =
      some (((rest.drop k).take n).all fun b => b &&& 0xC0 == 0x80) := by
  induction n with
  | zero => intro k _; simp [continuationsAt]
  | succ n ih =>
    intro k fits
    have hk : k < rest.length := by omega
    have hnext := ih (k + 1) (by omega)
    rw [List.range'_succ, continuationsAt, read_sequence hat_i, List.getElem?_eq_getElem hk,
      Option.bind_some, hnext, List.drop_eq_getElem_cons hk, List.take_succ_cons, List.all_cons]
    split <;> simp_all

theorem exceptionAt_eq {bytes rest : Bytes} {i len : Nat} {c : UInt8}
    (hat_i : bytes.drop i = c :: rest) (hfits : len ≤ rest.length + 1) (hfour : len ≤ 4)
    (htail : ((rest.take (len - 1)).all fun b => b &&& 0xC0 == 0x80) = true) :
    exceptionAt bytes i c len = some (!utf8Sequence c (rest.take (len - 1)) len) := by
  have hsecond := read_sequence hat_i 0
  have hthird := read_sequence hat_i 1
  simp only [utf8Sequence, htail, Bool.true_and]
  rcases len with _ | _ | _ | _ | _ | len
  · simp [exceptionAt, guarded]
  · simp [exceptionAt, guarded]
  · by_cases low : c < 0xC2 <;> simp [exceptionAt, guarded, low]
  · rcases rest with _ | ⟨b, _ | ⟨d, rest⟩⟩
    · simp at hfits
    · simp at hfits
    simp only [exceptionAt, guarded, hsecond, hthird]
    by_cases e0 : c = 0xE0 <;> by_cases ed : c = 0xED <;> by_cases ef : c = 0xEF <;>
      by_cases bf : b = 0xBF <;> simp_all
    all_goals split <;> simp_all
  · rcases rest with _ | ⟨b, rest⟩
    · simp at hfits
    simp only [exceptionAt, guarded, hsecond]
    by_cases f0 : c = 0xF0 <;> by_cases f4 : c = 0xF4 <;> simp_all
    all_goals split <;> simp_all
  · omega

/-- The loop with checked accesses never misses one: it answers as the unchecked loop does. -/
theorem validUtf8At_eq (bytes : Bytes) (fuel i : Nat) :
    validUtf8At bytes fuel i = some (validUtf8From fuel (bytes.drop i)) := by
  induction fuel generalizing i with
  | zero =>
    by_cases inside : i < bytes.length
    · rw [List.drop_eq_getElem_cons inside, validUtf8From, validUtf8At, decide_eq_true inside]
      rfl
    · rw [List.drop_eq_nil_of_le (Nat.not_lt.1 inside), validUtf8From, validUtf8At,
        decide_eq_false inside]
      rfl
  | succ fuel ih =>
    by_cases inside : i < bytes.length
    · have hat_i := List.drop_eq_getElem_cons inside
      have hsize : i + ((bytes.drop (i + 1)).length + 1) = bytes.length := by
        rw [List.length_drop]
        omega
      generalize bytes.drop (i + 1) = rest at hat_i hsize
      rw [validUtf8At, if_pos inside, List.getElem?_eq_getElem inside, Option.bind_some, hat_i,
        validUtf8From]
      generalize bytes[i] = c at hat_i
      by_cases short : utf8Length c = 0 ∨ i + utf8Length c > bytes.length
      · rw [if_pos short, if_pos (by omega)]
      · have hfits : 0 < utf8Length c ∧ utf8Length c ≤ rest.length + 1 := by omega
        have hnext : bytes.drop (i + utf8Length c) = rest.drop (utf8Length c - 1) := by
          obtain ⟨n, hn⟩ := Nat.exists_eq_add_of_lt hfits.1
          rw [← List.drop_drop, hat_i, hn, Nat.zero_add, List.drop_succ_cons, Nat.add_sub_cancel]
        have hreads := continuationsAt_eq hat_i (utf8Length c - 1) 0 (by omega)
        rw [if_neg short, if_neg (by omega), hreads, List.drop_zero, Option.bind_some, ih, hnext]
        by_cases tail : ((rest.take (utf8Length c - 1)).all fun b => b &&& 0xC0 == 0x80) = true
        · rw [if_pos tail, exceptionAt_eq hat_i hfits.2 (utf8Length_le c) tail, Option.bind_some]
          cases utf8Sequence c (rest.take (utf8Length c - 1)) (utf8Length c) <;> rfl
        · have hrejected : utf8Sequence c (rest.take (utf8Length c - 1)) (utf8Length c) = false := by
            simp only [utf8Sequence, Bool.not_eq_true _ ▸ tail, Bool.false_and]
          rw [if_neg tail, hrejected, Bool.false_and]
    · rw [validUtf8At, if_neg inside, List.drop_eq_nil_of_le (Nat.not_lt.1 inside), validUtf8From]

/-- `valid_utf8` reads no byte past the end, and accepts the shortest-form encodings of scalar values without the two noncharacters and nothing else. -/
theorem validUtf8_exact (bytes : Bytes) :
    validUtf8At bytes bytes.length 0 = some (validUtf8 bytes) ∧
      (validUtf8 bytes = true ↔
        ∃ cs : List Char, (∀ c ∈ cs, c.toNat ≠ 0xFFFE ∧ c.toNat ≠ 0xFFFF) ∧
          bytes = cs.flatMap String.utf8EncodeChar) :=
  ⟨validUtf8At_eq bytes bytes.length 0, validUtf8From_iff bytes.length bytes (Nat.le_refl _)⟩

end LightNfs
