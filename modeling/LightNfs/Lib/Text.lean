import Mathlib

/-!
# Texts

Texts as lists of characters: cutting at a separator, decimal numbers and the numbers a text begins with. Each
reader comes with the lemma that it gets back what was written.
-/

/-- A text; where a program works on bytes, each byte is a character. -/
abbrev Text := List Char

namespace Text

/-- A literal text. It is not unfolded in proofs, where reading the characters of a string is slow. -/
@[irreducible] def lit (s : String) : Text := s.toList

variable {c : Char} {a t : Text} {n : Nat}

theorem lit_def (s : String) : lit s = s.toList := by rw [lit]

/-! ### Separators -/

/-- What stands before the first `c`, and what stands after it if there is one. -/
def cut (c : Char) : Text → Text × Option Text
  | [] => ([], none)
  | d :: t => if d = c then ([], some t) else (d :: (cut c t).1, (cut c t).2)

@[simp] theorem cut_append (ha : c ∉ a) (b : Text) : cut c (a ++ c :: b) = (a, some b) := by
  induction a with
  | nil => simp [cut]
  | cons d a ih =>
    simp only [List.mem_cons, not_or] at ha
    simp [cut, ih ha.2, Ne.symm ha.1]

@[simp] theorem cut_of_notMem (ha : c ∉ a) : cut c a = (a, none) := by
  induction a with
  | nil => rfl
  | cons d a ih =>
    simp only [List.mem_cons, not_or] at ha
    simp [cut, ih ha.2, Ne.symm ha.1]

theorem cut_rejoin (c : Char) (t : Text) :
    t = (cut c t).1 ++ match (cut c t).2 with | none => [] | some rest => c :: rest := by
  induction t with
  | nil => rfl
  | cons d t ih =>
    by_cases hd : d = c
    · simp [cut, hd]
    · simp only [cut, if_neg hd, List.cons_append]
      exact congrArg _ ih

theorem notMem_cut (c : Char) (t : Text) : c ∉ (cut c t).1 := by
  induction t with
  | nil => exact List.not_mem_nil
  | cons d t ih =>
    by_cases hd : d = c
    · simp [cut, hd]
    · simpa [cut, hd, Ne.symm hd] using ih

theorem cons_infix_append_iff {b : Text} (ha : c ∉ a) : c :: t <:+: a ++ b ↔ c :: t <:+: b := by
  induction a with
  | nil => rfl
  | cons d a ih =>
    simp only [List.mem_cons, not_or] at ha
    rw [List.cons_append, List.infix_cons_iff, ih ha.2, or_iff_right]
    rintro ⟨rest, heq⟩
    exact ha.1 (List.cons.inj heq).1

/-! ### Lines -/

/-- The lines of a text; an end of line at the very end starts no further one. -/
def lines : Text → List Text
  | [] => []
  | c :: t =>
    if c = '\n' then [] :: lines t
    else
      match lines t with
      | [] => [[c]]
      | l :: ls => (c :: l) :: ls

theorem lines_append (ha : '\n' ∉ a) (b : Text) : lines (a ++ '\n' :: b) = a :: lines b := by
  induction a with
  | nil => simp [lines]
  | cons c a ih =>
    simp only [List.mem_cons, not_or] at ha
    simp [lines, ih ha.2, Ne.symm ha.1]

theorem notMem_lines {l : Text} (hl : l ∈ lines t) : '\n' ∉ l := by
  induction t generalizing l with
  | nil => exact absurd hl List.not_mem_nil
  | cons c t ih =>
    unfold lines at hl
    split at hl
    case isTrue =>
      rcases List.mem_cons.1 hl with rfl | hl
      · exact List.not_mem_nil
      · exact ih hl
    case isFalse hc =>
      cases hlines : lines t with
      | nil =>
        rw [hlines] at hl
        obtain rfl := List.mem_singleton.1 hl
        simpa using Ne.symm hc
      | cons first ls =>
        rw [hlines] at hl ih
        rcases List.mem_cons.1 hl with rfl | hl
        · simpa [Ne.symm hc] using ih List.mem_cons_self
        · exact ih (List.mem_cons_of_mem first hl)

/-- Lines, each with its end. -/
def unlines (ls : List Text) : Text := ls.flatMap (· ++ ['\n'])

theorem lines_unlines_append {ls : List Text} (hls : ∀ l ∈ ls, '\n' ∉ l) (t : Text) :
    lines (unlines ls ++ t) = ls ++ lines t := by
  induction ls with
  | nil => rfl
  | cons l ls ih =>
    have hrest := ih fun l' hl' => hls l' (List.mem_cons_of_mem l hl')
    have hsplit : unlines (l :: ls) ++ t = l ++ '\n' :: (unlines ls ++ t) := by simp [unlines]
    rw [hsplit, lines_append (hls l List.mem_cons_self), hrest, List.cons_append]

/-! ### Decimal numbers -/

def decimal (n : Nat) : Text := Nat.toDigits 10 n

theorem isDigit_of_mem_decimal (hc : c ∈ decimal n) : c.isDigit = true :=
  Nat.isDigit_of_mem_toDigits (by decide) (by decide) hc

theorem decimal_ne_nil (n : Nat) : decimal n ≠ [] := Nat.toDigits_ne_nil

theorem decimal_injective {m : Nat} (h : decimal m = decimal n) : m = n := by
  have hread := congrArg (fun t => Nat.ofDigitChars 10 t 0) h
  simpa [decimal, Nat.ofDigitChars_toDigits] using hread

theorem notMem_decimal (hc : c.isDigit = false) : c ∉ decimal n := by
  intro hmem
  rw [isDigit_of_mem_decimal hmem] at hc
  exact Bool.noConfusion hc

/-- A number with its sign. -/
def decimalInt (x : Int) : Text := if x < 0 then '-' :: decimal x.natAbs else decimal x.toNat

theorem notMem_decimalInt {x : Int} (hc : c.isDigit = false) (hsign : c ≠ '-') : c ∉ decimalInt x := by
  unfold decimalInt
  split
  · simpa [hsign] using notMem_decimal hc
  · exact notMem_decimal hc

theorem decimalInt_ne_nil (x : Int) : decimalInt x ≠ [] := by
  unfold decimalInt
  split
  · exact List.cons_ne_nil _ _
  · exact decimal_ne_nil _

/-- The number a text begins with. -/
def leadingNat (t : Text) : Option Nat :=
  match t.takeWhile Char.isDigit with
  | [] => none
  | digits => some (Nat.ofDigitChars 10 digits 0)

theorem leadingNat_decimal_append (n : Nat) {rest : Text} (hrest : ∀ c, rest.head? = some c → c.isDigit = false) :
    leadingNat (decimal n ++ rest) = some n := by
  have hstop : rest.takeWhile Char.isDigit = [] := by
    cases rest with
    | nil => rfl
    | cons c rest => simp [hrest c rfl]
  have hdigits : (decimal n ++ rest).takeWhile Char.isDigit = decimal n := by
    rw [List.takeWhile_append_of_pos (fun _ => isDigit_of_mem_decimal), hstop, List.append_nil]
  rw [leadingNat, hdigits]
  split
  case h_1 hnil => exact absurd hnil (decimal_ne_nil n)
  case h_2 => exact congrArg some (Nat.ofDigitChars_toDigits (by decide) (by decide))

@[simp] theorem leadingNat_decimal (n : Nat) : leadingNat (decimal n) = some n := by
  have hread : leadingNat (decimal n ++ []) = some n := leadingNat_decimal_append n nofun
  rwa [List.append_nil] at hread

theorem leadingNat_eq_none (ht : ∀ c, t.head? = some c → c.isDigit = false) : leadingNat t = none := by
  cases t with
  | nil => rfl
  | cons c t => simp [leadingNat, ht c rfl]

end Text
