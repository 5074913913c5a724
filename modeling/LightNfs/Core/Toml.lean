import LightNfs.Basic
import LightNfs.Lib.Text

/-!
# The configuration syntax

The helpers of `core/config.cpp` for the subset of TOML that configuration files and the shared catalog use, and the
writers of the same values. What a writer produces its reader gives back.
-/

namespace LightNfs

namespace Toml

open Text

/-- `std::isspace` in the C locale. -/
def isSpace (c : Char) : Bool := c == ' ' || (9 ≤ c.toNat && c.toNat ≤ 13)

variable {t v : Text} {c : Char} {values : List Text}

theorem isSpace_of_lt (hc : 32 < c.toNat) : isSpace c = false := by
  have hne : c ≠ ' ' := by
    rintro rfl
    exact absurd hc (by decide)
  simp only [isSpace, beq_false_of_ne hne, Bool.false_or, Bool.and_eq_false_iff, decide_eq_false_iff_not]
  omega

def trim (t : Text) : Text := (t.dropWhile isSpace).rdropWhile isSpace

/-! ### Comments -/

/-- What the scan of `strip_comment` carries: inside a quoted text, and right behind a backslash. -/
abbrev Scan := Bool × Bool

variable {s : Scan}

def scanChar (s : Scan) (c : Char) : Scan := (if c == '"' && !s.2 then !s.1 else s.1, c == '\\')

def scan (s : Scan) (t : Text) : Scan := t.foldl scanChar s

def stripFrom (s : Scan) : Text → Text
  | [] => []
  | c :: t => if c == '#' && !(scanChar s c).1 then [] else c :: stripFrom (scanChar s c) t

def stripComment (line : Text) : Text := stripFrom (false, false) line

/-- A quote is open behind this text. -/
def quoteOpen (t : Text) : Bool := (scan (false, false) t).1

/-! ### Values -/

def unescape : Text → Text
  | [] => []
  | ['\\'] => ['\\']
  | '\\' :: c :: t => (if c = 'n' then '\n' else if c = 't' then '\t' else c) :: unescape t
  | c :: t => c :: unescape t

variable (value : Text)

def stringValue : Except Errno Text :=
  let value := trim value
  if value.length < 2 ∨ value.head? ≠ some '"' ∨ value.getLast? ≠ some '"' then .error .inval
  else .ok (unescape value.tail.dropLast)

/-- `std::from_chars` has to read all of the text. -/
def uintValue : Except Errno UInt64 :=
  let value := trim value
  if value ≠ [] ∧ value.all Char.isDigit ∧ Nat.ofDigitChars 10 value 0 < 2 ^ 64 then
    .ok (UInt64.ofNat (Nat.ofDigitChars 10 value 0))
  else .error .inval

def u32Value : Except Errno UInt32 := do
  let n ← uintValue value
  if n > 0xFFFFFFFF then throw .inval
  return n.toUInt32

def boolValue : Except Errno Bool :=
  let value := trim value
  if value = lit "true" then .ok true else if value = lit "false" then .ok false else .error .inval

/-- The unit of a size, or 0. -/
def sizeUnit (suffix : Text) : UInt64 :=
  if suffix = [] ∨ suffix = lit "B" then 1
  else if suffix = lit "KiB" then 1024
  else if suffix = lit "MiB" then 1024 * 1024
  else if suffix = lit "GiB" then 1024 * 1024 * 1024
  else 0

/-- A bare number or a quoted one with its unit. -/
def sizeValue : Except Errno UInt64 :=
  let value := trim value
  if value.head? = some '"' then do
    let s ← stringValue value
    let base ← uintValue (s.takeWhile Char.isDigit)
    let unit := sizeUnit (s.dropWhile Char.isDigit)
    if unit = 0 ∨ base > 0xFFFFFFFFFFFFFFFF / unit then throw .inval
    return base * unit
  else uintValue value

/-- A text up to its closing quote, and what follows it. -/
def closing (backslash : Bool) : Text → Option (Text × Text)
  | [] => none
  | c :: t =>
    if c = '"' ∧ backslash = false then some ([], t)
    else (closing (c == '\\') t).map fun (body, rest) => (c :: body, rest)

/-- The loop over the items; `fuel` bounds its rounds. -/
def stringItems : Nat → Text → Except Errno (List Text)
  | _, [] => .ok []
  | 0, _ :: _ => .error .inval
  | fuel + 1, c :: t =>
    if c ≠ '"' then .error .inval
    else
      match closing false t with
      | none => .error .inval
      | some (body, rest) => do
        let item ← stringValue ('"' :: body ++ ['"'])
        match trim rest with
        | [] => return [item]
        | ',' :: rest => return item :: (← stringItems fuel (trim rest))
        | _ => .error .inval

def stringArray : Except Errno (List Text) :=
  let value := trim value
  if value.length < 2 ∨ value.head? ≠ some '[' ∨ value.getLast? ≠ some ']' then .error .inval
  else stringItems value.length (trim value.tail.dropLast)

def normalizePath (path : Text) : Text :=
  let trimmed := path.rdropWhile (· == '/')
  if trimmed = [] then path.take 1 else trimmed

/-- A backend option: a quoted text, a bare truth value or a number. -/
def backendValue : Except Errno Text :=
  if value.head? = some '"' then stringValue value
  else if value = lit "true" ∨ value = lit "false" then .ok value
  else do return decimal (← uintValue value).toNat

/-! ### Writers -/

def escapeChar (c : Char) : Text :=
  if c = '"' ∨ c = '\\' then ['\\', c] else if c = '\n' then ['\\', 'n'] else if c = '\t' then ['\\', 't'] else [c]

def escape (t : Text) : Text := t.flatMap escapeChar

def quote : Text := '"' :: escape value ++ ['"']

def quoteArray (values : List Text) : Text := '[' :: (lit ", ").intercalate (values.map quote) ++ [']']

def boolText (b : Bool) : Text := if b then lit "true" else lit "false"

def backendValueText : Text :=
  if value = lit "true" ∨ value = lit "false" then value
  else
    match uintValue value with
    | .ok n => if decimal n.toNat = value then value else quote value
    | .error _ => quote value

/-- A line `key = value`. -/
def keyLine (key value : Text) : Text := key ++ lit " = " ++ value

def splitKey (line : Text) : Option (Text × Text) :=
  match cut '=' line with
  | (_, none) => none
  | (key, some value) => some (trim key, trim value)

/-! ### Trimming -/

theorem trim_cons_space (hc : isSpace c = true) (t : Text) : trim (c :: t) = trim t := by
  rw [trim, List.dropWhile_cons_of_pos hc, trim]

theorem trim_append_space (hc : isSpace c = true) (t : Text) : trim (t ++ [c]) = trim t := by
  unfold trim
  rw [List.dropWhile_append]
  split
  case isTrue hempty =>
    rw [List.isEmpty_iff.1 hempty, List.dropWhile_cons_of_pos hc, List.dropWhile_nil]
  case isFalse => rw [List.rdropWhile_concat_pos _ _ _ hc]

/-- A text without blanks around it. -/
structure Solid (t : Text) : Prop where
  head : ∀ c, t.head? = some c → isSpace c = false
  last : ∀ c, t.getLast? = some c → isSpace c = false

theorem dropWhile_eq_self (h : ∀ c, t.head? = some c → isSpace c = false) : t.dropWhile isSpace = t := by
  cases t with
  | nil => rfl
  | cons c t => exact List.dropWhile_cons_of_neg (by simp [h c rfl])

theorem rdropWhile_eq_self (h : ∀ c, t.getLast? = some c → isSpace c = false) :
    t.rdropWhile isSpace = t := by
  rcases List.eq_nil_or_concat t with rfl | ⟨front, c, rfl⟩
  · rfl
  · rw [List.concat_eq_append] at h ⊢
    exact List.rdropWhile_concat_neg _ _ _ (by simp [h c (by simp)])

theorem Solid.trim_eq (h : Solid t) : trim t = t := by
  rw [trim, dropWhile_eq_self h.head, rdropWhile_eq_self h.last]

theorem solid_of_forall (h : ∀ c ∈ t, isSpace c = false) : Solid t where
  head c hc := h c (List.mem_of_head? hc)
  last c hc := h c (List.mem_of_getLast? hc)

theorem solid_trim (t : Text) : Solid (trim t) where
  head c hc := by
    have hprefix : trim t <+: t.dropWhile isSpace := List.rdropWhile_prefix ..
    have hhead : (t.dropWhile isSpace).head? = some c := by
      obtain ⟨rest, hrest⟩ := hprefix
      cases htrim : trim t with
      | nil => rw [htrim] at hc; exact absurd hc (by simp)
      | cons d s =>
        rw [htrim] at hc hrest
        rw [← hrest]
        exact hc
    have hnot := List.head?_dropWhile_not isSpace t
    rw [hhead] at hnot
    simpa using hnot
  last c hc := by
    by_cases hne : trim t = []
    · rw [hne] at hc
      exact absurd hc (by simp)
    · have hlast := List.rdropWhile_last_not isSpace (t.dropWhile isSpace) hne
      rw [List.getLast?_eq_getLast_of_ne_nil hne] at hc
      rw [← Option.some.inj hc]
      exact Bool.eq_false_of_not_eq_true hlast

theorem mem_of_mem_trim (hc : c ∈ trim t) : c ∈ t :=
  (List.dropWhile_suffix isSpace).mem ((List.rdropWhile_prefix isSpace _).mem hc)

theorem trim_trim (t : Text) : trim (trim t) = trim t := (solid_trim t).trim_eq

theorem trim_append (t : Text) : ∃ a b, t = a ++ trim t ++ b ∧ ∀ c ∈ a, isSpace c = true := by
  obtain ⟨b, hb⟩ : trim t <+: t.dropWhile isSpace := List.rdropWhile_prefix ..
  refine ⟨t.takeWhile isSpace, b, ?_, fun c hc => List.mem_takeWhile_imp hc⟩
  rw [List.append_assoc, hb, List.takeWhile_append_dropWhile]

/-! ### Keys and values of a line -/

theorem trim_dropWhile (t : Text) : trim (t.dropWhile isSpace) = trim t := by
  rw [trim, trim, List.dropWhile_idempotent]

theorem trim_rdropWhile (t : Text) : trim (t.rdropWhile isSpace) = trim t := by
  induction t using List.reverseRecOn with
  | nil => rfl
  | append_singleton t c ih =>
    by_cases hc : isSpace c = true
    · rw [List.rdropWhile_concat_pos _ _ _ hc, ih, trim_append_space hc]
    · rw [List.rdropWhile_concat_neg _ _ _ hc]

theorem trim_around (hc : isSpace c = false) (a b : Text) :
    trim (a ++ c :: b) = a.dropWhile isSpace ++ c :: b.rdropWhile isSpace := by
  have hdrop : (a ++ c :: b).dropWhile isSpace = a.dropWhile isSpace ++ c :: b := by
    rw [List.dropWhile_append]
    split
    case isTrue hempty => rw [List.isEmpty_iff.1 hempty, List.dropWhile_cons_of_neg (by simp [hc]), List.nil_append]
    case isFalse => rfl
  rw [trim, hdrop]
  clear hdrop
  generalize a.dropWhile isSpace = front
  induction b using List.reverseRecOn with
  | nil => simp [hc]
  | append_singleton b d ih =>
    by_cases hd : isSpace d = true
    · have hassoc : front ++ c :: (b ++ [d]) = (front ++ c :: b) ++ [d] := by simp
      rw [hassoc, List.rdropWhile_concat_pos _ _ _ hd, List.rdropWhile_concat_pos _ _ _ hd, ih]
    · have hassoc : front ++ c :: (b ++ [d]) = (front ++ c :: b) ++ [d] := by simp
      rw [hassoc, List.rdropWhile_concat_neg _ _ _ hd, List.rdropWhile_concat_neg _ _ _ hd]
      simp

theorem keyLine_eq (key value : Text) : keyLine key value = (key ++ [' ']) ++ '=' :: ' ' :: value := by
  have hmid : lit " = " = [' ', '=', ' '] := by simp [lit_def]
  simp [keyLine, hmid]

theorem splitKey_keyLine {key : Text} (hkey : '=' ∉ key) (value : Text) :
    splitKey (trim (keyLine key value)) = some (trim key, trim value) := by
  have hfront : '=' ∉ (key ++ [' ']).dropWhile isSpace := by
    intro hmem
    simpa [hkey] using (List.dropWhile_suffix isSpace).mem hmem
  rw [keyLine_eq, trim_around (by decide), splitKey, cut_append hfront]
  simp only [trim_dropWhile, trim_rdropWhile, trim_append_space (by decide : isSpace ' ' = true),
    trim_cons_space (by decide : isSpace ' ' = true)]

theorem head?_trim_keyLine {key : Text} (hkey : trim key = key) (value : Text) :
    (trim (keyLine key value)).head? = some (key.headD '=') := by
  rw [keyLine_eq, trim_around (by decide)]
  cases key with
  | nil => rfl
  | cons c key =>
    have hc : isSpace c = false := (solid_trim (c :: key)).head c (by rw [hkey, List.head?_cons])
    rw [List.cons_append, List.dropWhile_cons_of_neg (by simp [hc])]
    rfl

/-! ### The comment scan -/

@[simp] theorem scan_append (s : Scan) (a b : Text) : scan s (a ++ b) = scan (scan s a) b := List.foldl_append

@[simp] theorem scan_cons (s : Scan) (c : Char) (t : Text) : scan s (c :: t) = scan (scanChar s c) t := rfl

/-- Every number sign of the text is inside quotes. -/
def SignsQuoted (s : Scan) (t : Text) : Prop := ∀ a b, t = a ++ '#' :: b → (scan s a).1 = true

theorem SignsQuoted.tail (h : SignsQuoted s (c :: t)) :
    SignsQuoted (scanChar s c) t := by
  rintro a b rfl
  exact h (c :: a) b rfl

theorem stripFrom_append (h : SignsQuoted s t) (u : Text) :
    stripFrom s (t ++ u) = t ++ stripFrom (scan s t) u := by
  induction t generalizing s with
  | nil => rfl
  | cons c t ih =>
    have hkeep : (c == '#' && !(scanChar s c).1) = false := by
      by_cases hc : c = '#'
      · subst hc
        have hopen : s.1 = true := h [] t rfl
        simp [scanChar, hopen]
      · simp [hc]
    rw [List.cons_append, stripFrom, hkeep, ih h.tail]
    rfl

theorem stripFrom_eq_self (h : SignsQuoted s t) : stripFrom s t = t := by
  have happend := stripFrom_append h []
  rwa [List.append_nil, stripFrom, List.append_nil] at happend

theorem stripFrom_starts (s : Scan) (t : Text) : stripFrom s t <+: t := by
  induction t generalizing s with
  | nil => exact List.prefix_rfl
  | cons c t ih =>
    unfold stripFrom
    split
    · exact List.nil_prefix
    · exact List.cons_prefix_cons.2 ⟨rfl, ih _⟩

theorem signsQuoted_stripFrom (s : Scan) (t : Text) : SignsQuoted s (stripFrom s t) := by
  induction t generalizing s with
  | nil => intro a b h; exact absurd h (by simp [stripFrom])
  | cons c t ih =>
    intro a b h
    unfold stripFrom at h
    split at h
    case isTrue => exact absurd h (by simp)
    case isFalse hkeep =>
      cases a with
      | nil =>
        obtain ⟨rfl, -⟩ := List.cons.inj h
        show s.1 = true
        simpa [scanChar] using hkeep
      | cons d a =>
        obtain ⟨hd, hrest⟩ := List.cons.inj h
        subst hd
        exact ih _ a b hrest

theorem signsQuoted_of_notMem (h : '#' ∉ t) : SignsQuoted s t := by
  rintro a b rfl
  simp at h

theorem scan_of_notMem (h : '"' ∉ t) (s : Scan) : (scan s t).1 = s.1 := by
  induction t generalizing s with
  | nil => rfl
  | cons c t ih =>
    simp only [List.mem_cons, not_or] at h
    rw [scan_cons, ih h.2, scanChar, beq_false_of_ne (Ne.symm h.1)]
    rfl

theorem scan_spaces {a : Text} (ha : ∀ c ∈ a, isSpace c = true) : scan (false, false) a = (false, false) := by
  induction a with
  | nil => rfl
  | cons c a ih =>
    have hc := ha c List.mem_cons_self
    have hquote : c ≠ '"' := by rintro rfl; exact absurd hc (by decide)
    have hback : (c == '\\') = false := beq_false_of_ne (by rintro rfl; exact absurd hc (by decide))
    rw [scan_cons, show scanChar (false, false) c = (false, false) by simp [scanChar, hquote, hback]]
    exact ih fun d hd => ha d (List.mem_cons_of_mem c hd)

theorem stripComment_keyLine {key : Text} (hkey : SignsQuoted (false, false) key) (value : Text) :
    stripComment (keyLine key value) = keyLine key (stripFrom (quoteOpen key, false) value) := by
  have hmid : lit " = " = [' ', '=', ' '] := by simp [lit_def]
  rw [keyLine, stripComment, List.append_assoc, stripFrom_append hkey,
    stripFrom_append (signsQuoted_of_notMem (by rw [hmid]; decide))]
  have hscan : scan (scan (false, false) key) (lit " = ") = (quoteOpen key, false) := by
    rw [hmid]
    rfl
  rw [hscan, keyLine, List.append_assoc]

theorem SignsQuoted.append {a b : Text} (ha : SignsQuoted s a) (hb : SignsQuoted (scan s a) b) :
    SignsQuoted s (a ++ b) := by
  have hstrip := signsQuoted_stripFrom s (a ++ b)
  rwa [stripFrom_append ha, stripFrom_eq_self hb] at hstrip

/-! ### Quoted texts -/

theorem escape_cons (c : Char) (v : Text) : escape (c :: v) = escapeChar c ++ escape v := List.flatMap_cons

theorem escapeChar_cases (c : Char) :
    (c = '"' ∧ escapeChar c = ['\\', '"']) ∨ (c = '\\' ∧ escapeChar c = ['\\', '\\']) ∨
      (c = '\n' ∧ escapeChar c = ['\\', 'n']) ∨ (c = '\t' ∧ escapeChar c = ['\\', 't']) ∨
      (c ≠ '"' ∧ c ≠ '\\' ∧ escapeChar c = [c]) := by
  unfold escapeChar
  split
  case isTrue h => rcases h with rfl | rfl <;> simp
  case isFalse h =>
    obtain ⟨hquote, hback⟩ := not_or.1 h
    split
    case isTrue h => simp [h]
    case isFalse hline =>
      split
      case isTrue h => simp [h]
      case isFalse htab => simp [hquote, hback, hline, htab]

theorem signsQuoted_escapeChar (c : Char) (e : Bool) : SignsQuoted (true, e) (escapeChar c) := by
  rcases escapeChar_cases c with ⟨-, h⟩ | ⟨-, h⟩ | ⟨-, h⟩ | ⟨-, h⟩ | ⟨-, -, h⟩
  case inr.inr.inr.inr =>
    rw [h]
    intro a b heq
    cases a with
    | nil => rfl
    | cons d a => simp at heq
  all_goals rw [h]; exact signsQuoted_of_notMem (by decide)

theorem scan_escapeChar (c : Char) (q e : Bool) : scan (q, e) (escapeChar c) = (q, c == '\\') := by
  rcases escapeChar_cases c with ⟨rfl, h⟩ | ⟨rfl, h⟩ | ⟨rfl, h⟩ | ⟨rfl, h⟩ | ⟨hquote, -, h⟩
  case inr.inr.inr.inr =>
    rw [h, scan_cons, scanChar, beq_false_of_ne hquote]
    rfl
  all_goals rw [h]; rfl

theorem signsQuoted_escape (v : Text) (e : Bool) : SignsQuoted (true, e) (escape v) := by
  induction v generalizing e with
  | nil => exact signsQuoted_of_notMem List.not_mem_nil
  | cons c v ih =>
    rw [escape_cons]
    exact (signsQuoted_escapeChar c e).append (scan_escapeChar c true e ▸ ih _)

theorem scan_escape (v : Text) (q e : Bool) :
    scan (q, e) (escape v) = (q, (v.getLast?.map (· == '\\')).getD e) := by
  induction v generalizing e with
  | nil => rfl
  | cons c v ih =>
    rw [escape_cons, scan_append, scan_escapeChar, ih, List.getLast?_cons]
    cases v.getLast? <;> rfl

theorem signsQuoted_quote (v : Text) : SignsQuoted (false, false) (quote v) := by
  have hopen : SignsQuoted (false, false) ['"'] := signsQuoted_of_notMem (by decide)
  refine hopen.append (SignsQuoted.append (signsQuoted_escape v false) ?_)
  exact signsQuoted_of_notMem (by decide)

theorem scan_quote (hv : v.getLast? ≠ some '\\') : scan (false, false) (quote v) = (false, false) := by
  have hlast : (v.getLast?.map (· == '\\')).getD false = false := by
    cases h : v.getLast? with
    | none => rfl
    | some c => simpa [h] using hv
  have hsplit : quote v = ['"'] ++ escape v ++ ['"'] := rfl
  rw [hsplit, scan_append, scan_append, show scan (false, false) ['"'] = (true, false) from rfl, scan_escape, hlast]
  rfl

theorem solid_quote (v : Text) : Solid (quote v) where
  head c hc := by
    obtain rfl : '"' = c := by simpa [quote] using hc
    decide
  last c hc := by
    obtain rfl : '"' = c := by simpa [quote, List.getLast?_cons] using hc
    decide

theorem unescape_escapeChar (c : Char) (t : Text) : unescape (escapeChar c ++ t) = c :: unescape t := by
  rcases escapeChar_cases c with ⟨rfl, h⟩ | ⟨rfl, h⟩ | ⟨rfl, h⟩ | ⟨rfl, h⟩ | ⟨-, hback, h⟩
  case inr.inr.inr.inr =>
    rw [h, List.singleton_append, unescape]
    · exact fun hc => absurd hc hback
    · exact fun _ _ hc => absurd hc hback
  all_goals rw [h]; rfl

theorem unescape_escape (v : Text) : unescape (escape v) = v := by
  induction v with
  | nil => rfl
  | cons c v ih => rw [escape_cons, unescape_escapeChar, ih]

theorem stringValue_quote (v : Text) : stringValue (quote v) = .ok v := by
  have hinner : (quote v).tail.dropLast = escape v := by simp [quote]
  have hguard : ¬((quote v).length < 2 ∨ (quote v).head? ≠ some '"' ∨ (quote v).getLast? ≠ some '"') := by
    simp [quote, List.getLast?_cons]
  simp only [stringValue, (solid_quote v).trim_eq, if_neg hguard, hinner, unescape_escape]

/-! ### Numbers and truth values -/

theorem isSpace_of_isDigit (hc : c.isDigit = true) : isSpace c = false := by
  apply isSpace_of_lt
  simp only [Char.isDigit, Bool.and_eq_true, decide_eq_true_eq] at hc
  exact Nat.lt_of_lt_of_le (by decide) (UInt32.le_iff_toNat_le.1 hc.1)

theorem solid_decimal (n : Nat) : Solid (decimal n) :=
  solid_of_forall fun _ hc => isSpace_of_isDigit (isDigit_of_mem_decimal hc)

theorem uintValue_decimal {n : Nat} (hn : n < 2 ^ 64) : uintValue (decimal n) = .ok (UInt64.ofNat n) := by
  have hread : Nat.ofDigitChars 10 (decimal n) 0 = n := Nat.ofDigitChars_toDigits (by decide) (by decide)
  have hall : (decimal n).all Char.isDigit = true := List.all_eq_true.2 fun _ => isDigit_of_mem_decimal
  simp only [uintValue, (solid_decimal n).trim_eq, hread, if_pos (⟨decimal_ne_nil n, hall, hn⟩ : _ ∧ _ ∧ _)]

theorem uintValue_toNat (n : UInt64) : uintValue (decimal n.toNat) = .ok n := by
  rw [uintValue_decimal n.toNat_lt, UInt64.ofNat_toNat]

theorem u32Value_toNat (n : UInt32) : u32Value (decimal n.toNat) = .ok n := by
  have hlt := n.toNat_lt
  have hsmall : ¬UInt64.ofNat n.toNat > 0xFFFFFFFF := by
    rw [gt_iff_lt, UInt64.lt_iff_toNat_lt, UInt64.toNat_ofNat_of_lt' (hlt.trans (by decide))]
    exact Nat.not_lt.2 (Nat.le_of_lt_succ hlt)
  have hback : (UInt64.ofNat n.toNat).toUInt32 = n := by simp
  rw [u32Value, uintValue_decimal (by omega)]
  simp only [bind, Except.bind, if_neg hsmall, hback]
  rfl

theorem isDigit_of_uintValue {value : Text} {n : UInt64} (h : uintValue value = .ok n) :
    ∀ c ∈ trim value, c.isDigit = true := by
  unfold uintValue at h
  dsimp only at h
  split at h
  case isTrue hdigits => exact List.all_eq_true.1 hdigits.2.1
  case isFalse => contradiction

theorem sizeValue_toNat (n : UInt64) : sizeValue (decimal n.toNat) = .ok n := by
  have hbare : ¬(decimal n.toNat).head? = some '"' :=
    fun hhead => notMem_decimal (by decide) (List.mem_of_head? hhead)
  simp only [sizeValue, (solid_decimal n.toNat).trim_eq, if_neg hbare, uintValue_toNat]

theorem solid_boolText (b : Bool) : Solid (boolText b) := by
  apply solid_of_forall
  cases b <;> simp [boolText, lit_def, isSpace]

theorem boolValue_boolText (b : Bool) : boolValue (boolText b) = .ok b := by
  cases b <;> decide +kernel

/-! ### Lists of texts -/

theorem closing_escapeChar (c : Char) (e : Bool) (t : Text) :
    closing e (escapeChar c ++ t) = (closing (c == '\\') t).map fun (body, rest) => (escapeChar c ++ body, rest) := by
  rcases escapeChar_cases c with ⟨rfl, h⟩ | ⟨rfl, h⟩ | ⟨rfl, h⟩ | ⟨rfl, h⟩ | ⟨hquote, -, h⟩
  case inr.inr.inr.inr =>
    rw [h, List.singleton_append, closing, if_neg (by simp [hquote])]
    rfl
  all_goals rw [h]; simp [closing, Function.comp_def]

theorem closing_escape {e : Bool} (hv : (v.getLast?.map (· == '\\')).getD e = false) (rest : Text) :
    closing e (escape v ++ '"' :: rest) = some (escape v, rest) := by
  induction v generalizing e with
  | nil => exact if_pos ⟨rfl, hv⟩
  | cons c v ih =>
    have hlast : (v.getLast?.map (· == '\\')).getD (c == '\\') = false := by
      rw [List.getLast?_cons] at hv
      cases h : v.getLast? <;> simpa [h] using hv
    rw [escape_cons, List.append_assoc, closing_escapeChar, ih hlast]
    rfl

def itemsText (values : List Text) : Text := (lit ", ").intercalate (values.map quote)

theorem itemsText_cons (v w : Text) (values : List Text) :
    itemsText (v :: w :: values) = quote v ++ ',' :: ' ' :: itemsText (w :: values) := by
  have hsep : lit ", " = [',', ' '] := by simp [lit_def]
  rw [itemsText, List.map_cons, List.map_cons, List.intercalate_cons_cons, ← List.map_cons, hsep]
  simp [itemsText, hsep]

theorem solid_itemsText (values : List Text) : Solid (itemsText values) := by
  match values with
  | [] => exact solid_of_forall nofun
  | [v] => simpa [itemsText] using solid_quote v
  | v :: w :: values =>
    have hrest := solid_itemsText (w :: values)
    rw [itemsText_cons]
    refine ⟨fun c hc => ?_, fun c hc => ?_⟩
    · rw [List.head?_append_of_ne_nil _ (by simp [quote])] at hc
      exact (solid_quote v).head c hc
    · rw [List.getLast?_append_of_ne_nil _ (by simp)] at hc
      have hne : itemsText (w :: values) ≠ [] := by
        cases values with
        | nil => simp [itemsText, quote]
        | cons x values => simp [itemsText_cons, quote]
      rw [List.getLast?_cons_of_ne_nil (by simp), List.getLast?_cons_of_ne_nil hne] at hc
      exact hrest.last c hc

/-- No item ends in a backslash, which would hide its closing quote. -/
def ItemsClosed (values : List Text) : Prop := ∀ v ∈ values, v.getLast? ≠ some '\\'

theorem ItemsClosed.last (h : ItemsClosed (v :: values)) :
    (v.getLast?.map (· == '\\')).getD false = false := by
  have hv := h v List.mem_cons_self
  cases hlast : v.getLast? with
  | none => rfl
  | some c => simpa [hlast] using hv

theorem stringItems_itemsText (h : ItemsClosed values) {fuel : Nat}
    (hfuel : values.length ≤ fuel) : stringItems fuel (itemsText values) = .ok values := by
  induction values generalizing fuel with
  | nil =>
    have hempty : itemsText [] = [] := rfl
    rw [hempty]
    cases fuel <;> rfl
  | cons v values ih =>
    obtain ⟨fuel, rfl⟩ : ∃ k, fuel = k + 1 := ⟨fuel - 1, by simp at hfuel; omega⟩
    have hrest : ItemsClosed values := fun w hw => h w (List.mem_cons_of_mem v hw)
    have hitem : stringValue ('"' :: escape v ++ ['"']) = .ok v := stringValue_quote v
    cases values with
    | nil =>
      have htext : itemsText [v] = '"' :: (escape v ++ '"' :: []) := by simp [itemsText, quote]
      rw [htext, stringItems, if_neg (by simp), closing_escape h.last]
      simp only [hitem]
      rfl
    | cons w values =>
      have htext : itemsText (v :: w :: values) =
          '"' :: (escape v ++ '"' :: ',' :: ' ' :: itemsText (w :: values)) := by
        simp [itemsText_cons, quote]
      have hne : itemsText (w :: values) ≠ [] := by
        cases values with
        | nil => simp [itemsText, quote]
        | cons x values => simp [itemsText_cons, quote]
      have hsolid := solid_itemsText (w :: values)
      have htrim : trim (',' :: ' ' :: itemsText (w :: values)) = ',' :: ' ' :: itemsText (w :: values) := by
        refine Solid.trim_eq ⟨fun c hc => ?_, fun c hc => ?_⟩
        · obtain rfl : ',' = c := by simpa using hc
          decide
        · rw [List.getLast?_cons_of_ne_nil (by simp), List.getLast?_cons_of_ne_nil hne] at hc
          exact hsolid.last c hc
      rw [htext, stringItems, if_neg (by simp), closing_escape h.last]
      simp only [hitem, htrim, trim_cons_space (by decide : isSpace ' ' = true), hsolid.trim_eq,
        ih hrest (by simpa using hfuel)]
      rfl

theorem length_itemsText (values : List Text) : values.length ≤ (itemsText values).length := by
  match values with
  | [] => simp
  | [v] => simp [itemsText, quote]
  | v :: w :: values =>
    have hrest := length_itemsText (w :: values)
    rw [itemsText_cons]
    simp only [List.length_append, List.length_cons] at hrest ⊢
    omega

theorem solid_quoteArray (values : List Text) : Solid (quoteArray values) where
  head c hc := by
    obtain rfl : '[' = c := by simpa [quoteArray] using hc
    decide
  last c hc := by
    obtain rfl : ']' = c := by simpa [quoteArray, List.getLast?_cons] using hc
    decide

theorem stringArray_quoteArray (h : ItemsClosed values) :
    stringArray (quoteArray values) = .ok values := by
  have hinner : (quoteArray values).tail.dropLast = itemsText values := by simp [quoteArray, itemsText]
  have hguard : ¬((quoteArray values).length < 2 ∨ (quoteArray values).head? ≠ some '[' ∨
      (quoteArray values).getLast? ≠ some ']') := by
    simp [quoteArray, List.getLast?_cons]
  have hlength : values.length ≤ (quoteArray values).length := by
    have hitems := length_itemsText values
    have hsplit : quoteArray values = '[' :: itemsText values ++ [']'] := rfl
    simp only [hsplit, List.length_append, List.length_cons]
    omega
  simp only [stringArray, (solid_quoteArray values).trim_eq, if_neg hguard, hinner,
    (solid_itemsText values).trim_eq, stringItems_itemsText h hlength]

theorem scan_itemsText {values : List Text} (h : ItemsClosed values) :
    SignsQuoted (false, false) (itemsText values) ∧ scan (false, false) (itemsText values) = (false, false) := by
  match values with
  | [] => exact ⟨signsQuoted_of_notMem List.not_mem_nil, rfl⟩
  | [v] =>
    have htext : itemsText [v] = quote v := by simp [itemsText]
    rw [htext]
    exact ⟨signsQuoted_quote v, scan_quote (h v List.mem_cons_self)⟩
  | v :: w :: values =>
    obtain ⟨hsigns, hscan⟩ := @scan_itemsText (w :: values) fun x hx => h x (List.mem_cons_of_mem v hx)
    have hfirst := scan_quote (h v List.mem_cons_self)
    have hsep : SignsQuoted (false, false) [',', ' '] := signsQuoted_of_notMem (by decide)
    have hsplit : itemsText (v :: w :: values) = quote v ++ ([',', ' '] ++ itemsText (w :: values)) := itemsText_cons ..
    rw [hsplit]
    refine ⟨(signsQuoted_quote v).append (by rw [hfirst]; exact hsep.append hsigns), ?_⟩
    rw [scan_append, hfirst, scan_append]
    exact hscan

theorem signsQuoted_quoteArray (h : ItemsClosed values) :
    SignsQuoted (false, false) (quoteArray values) := by
  obtain ⟨hsigns, hscan⟩ := scan_itemsText h
  have hopen : SignsQuoted (false, false) ['['] := signsQuoted_of_notMem (by decide)
  refine hopen.append (SignsQuoted.append hsigns ?_)
  exact signsQuoted_of_notMem (by decide)

/-! ### Backend options -/

theorem backendValueText_cases (v : Text) :
    (backendValueText v = v ∧ (v = lit "true" ∨ v = lit "false")) ∨
      (backendValueText v = v ∧ ¬(v = lit "true" ∨ v = lit "false") ∧ ∃ n, uintValue v = .ok n ∧ decimal n.toNat = v) ∨
      backendValueText v = quote v := by
  unfold backendValueText
  by_cases hbool : v = lit "true" ∨ v = lit "false"
  · rw [if_pos hbool]
    exact .inl ⟨rfl, hbool⟩
  · rw [if_neg hbool]
    cases hread : uintValue v with
    | error => exact .inr (.inr rfl)
    | ok n =>
      by_cases hsame : decimal n.toNat = v
      · exact .inr (.inl ⟨if_pos hsame, hbool, n, rfl, hsame⟩)
      · exact .inr (.inr (if_neg hsame))

theorem notMem_trueFalse (h : v = lit "true" ∨ v = lit "false") (hc : isSpace c = true ∨ c = '#') :
    c ∉ v := by
  have hletters : ∀ d ∈ v, isSpace d = false ∧ d ≠ '#' := by
    rcases h with rfl | rfl <;> simp [lit_def, isSpace]
  intro hmem
  rcases hc with hc | rfl
  · exact absurd hc (by simp [(hletters c hmem).1])
  · exact (hletters '#' hmem).2 rfl

theorem solid_backendValueText (v : Text) : Solid (backendValueText v) := by
  rcases backendValueText_cases v with ⟨htext, hbool⟩ | ⟨htext, -, n, -, rfl⟩ | htext
  · rw [htext]
    exact solid_of_forall fun c hc => Bool.eq_false_of_not_eq_true fun hspace =>
      notMem_trueFalse hbool (.inl hspace) hc
  · rw [htext]
    exact solid_decimal _
  · rw [htext]
    exact solid_quote v

theorem backendValue_text (v : Text) : backendValue (backendValueText v) = .ok v := by
  rcases backendValueText_cases v with ⟨htext, hbool⟩ | ⟨htext, hbool, n, hread, hsame⟩ | htext
  · rw [htext]
    rcases hbool with rfl | rfl <;> decide +kernel
  · have hhead : ¬v.head? = some '"' := by
      rw [← hsame]
      exact fun hhead => notMem_decimal (by decide) (List.mem_of_head? hhead)
    rw [htext, backendValue, if_neg hhead, if_neg hbool, hread]
    exact congrArg Except.ok hsame
  · rw [htext, backendValue, if_pos (by simp [quote]), stringValue_quote]

theorem mem_escape_sign : '#' ∈ escape v ↔ '#' ∈ v := by
  induction v with
  | nil => rfl
  | cons c v ih =>
    have hfirst : '#' ∈ escapeChar c ↔ '#' = c := by
      rcases escapeChar_cases c with ⟨rfl, h⟩ | ⟨rfl, h⟩ | ⟨rfl, h⟩ | ⟨rfl, h⟩ | ⟨-, -, h⟩ <;> simp [h]
    rw [escape_cons, List.mem_append, List.mem_cons, hfirst, ih]

theorem signsQuoted_backendValueText {q : Bool} (h : q = true → '#' ∉ v) :
    SignsQuoted (q, false) (backendValueText v) := by
  rcases backendValueText_cases v with ⟨htext, hbool⟩ | ⟨htext, -, n, -, rfl⟩ | htext
  · rw [htext]
    exact signsQuoted_of_notMem (notMem_trueFalse hbool (.inr rfl))
  · rw [htext]
    exact signsQuoted_of_notMem (notMem_decimal (by decide))
  · rw [htext]
    cases q with
    | false => exact signsQuoted_quote v
    | true =>
      have hescape : '#' ∉ escape v := fun hmem => h rfl (mem_escape_sign.1 hmem)
      exact signsQuoted_of_notMem (by simp [quote, hescape])

theorem length_unescape {p : Text} (h : t <+: escape p) : (unescape t).length ≤ p.length := by
  induction p generalizing t with
  | nil =>
    obtain rfl : t = [] := List.prefix_nil.1 h
    simp [unescape]
  | cons c p ih =>
    rw [escape_cons] at h
    have hpair (d : Char) (hform : escapeChar c = ['\\', d]) : (unescape t).length ≤ (c :: p).length := by
      rw [hform, List.cons_append, List.singleton_append, List.prefix_cons_iff] at h
      rcases h with rfl | ⟨s, rfl, hs⟩
      · simp [unescape]
      · rcases List.prefix_cons_iff.1 hs with rfl | ⟨u, rfl, hu⟩
        · simp [unescape]
        · simpa [unescape] using ih hu
    rcases escapeChar_cases c with ⟨-, hform⟩ | ⟨-, hform⟩ | ⟨-, hform⟩ | ⟨-, hform⟩ | ⟨-, hback, hform⟩
    case inr.inr.inr.inr =>
      rw [hform, List.singleton_append, List.prefix_cons_iff] at h
      rcases h with rfl | ⟨s, rfl, hs⟩
      · simp [unescape]
      · rw [unescape]
        · simpa using ih hs
        · exact fun hc => absurd hc hback
        · exact fun _ _ hc => absurd hc hback
    all_goals exact hpair _ hform

theorem backendValue_cut (hsign : '#' ∈ v) :
    backendValue (trim (stripFrom (true, false) (backendValueText v))) ≠ .ok v := by
  have htext : backendValueText v = quote v := by
    rcases backendValueText_cases v with ⟨-, hbool⟩ | ⟨-, -, n, -, rfl⟩ | htext
    · exact absurd hsign (notMem_trueFalse hbool (.inr rfl))
    · exact absurd hsign (notMem_decimal (by decide))
    · exact htext
  obtain ⟨p, r, rfl, hp⟩ := List.eq_append_cons_of_mem hsign
  have hescape : '#' ∉ escape p := fun hmem => hp (mem_escape_sign.1 hmem)
  have hquote : quote (p ++ '#' :: r) = '"' :: (escape p ++ ('#' :: (escape r ++ ['"']))) := by
    simp [quote, escape, escapeChar]
  have hcut : stripFrom (true, false) (quote (p ++ '#' :: r)) = '"' :: escape p := by
    rw [hquote, stripFrom, if_neg (by decide), stripFrom_append (signsQuoted_of_notMem hescape),
      show scanChar (true, false) '"' = (false, false) from rfl, scan_escape, stripFrom, if_pos (by simp [scanChar]),
      List.append_nil]
  have htrim : trim ('"' :: escape p) = '"' :: (escape p).rdropWhile isSpace := trim_around (by decide) [] (escape p)
  rw [htext, hcut, htrim, backendValue, if_pos (by simp)]
  intro hread
  have hsolid : trim ('"' :: (escape p).rdropWhile isSpace) = '"' :: (escape p).rdropWhile isSpace := by
    rw [← htrim, trim_trim]
  simp only [stringValue, hsolid] at hread
  split at hread
  case isTrue => contradiction
  case isFalse =>
    have hinner : ((escape p).rdropWhile isSpace).dropLast <+: escape p :=
      (List.dropLast_prefix _).trans (List.rdropWhile_prefix ..)
    have hshort := length_unescape hinner
    have hvalue : unescape ((escape p).rdropWhile isSpace).dropLast = p ++ '#' :: r := Except.ok.inj hread
    rw [hvalue, List.length_append, List.length_cons] at hshort
    omega

end Toml

end LightNfs
