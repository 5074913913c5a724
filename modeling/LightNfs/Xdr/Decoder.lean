import LightNfs.Xdr.Encoder

/-!
# The decoder

`XdrDec` reads a chain of segments or a flat range of bytes. On a chain it keeps a segment and an offset in it, skips
finished segments when it next needs a byte, and gathers a field that spans segments. What it answers depends only on
the bytes that are left, not on how they are cut.
-/

namespace LightNfs

/-- What is decoded: a received chain, segment by segment, or contiguous memory. -/
inductive XdrSource where
  | chain (segs : List Bytes)
  | flat (bytes : Bytes)

structure XdrDec where
  source : XdrSource
  seg : Nat := 0
  off : Nat := 0
  remaining : Nat

/-- A call of the decoder: its result, nothing for `kGarbage`, and the decoder after it. -/
def Dec (α : Type) : Type := XdrDec → Option α × XdrDec

namespace Dec

variable {α β : Type}

instance : Monad Dec where
  pure a := fun d => (some a, d)
  bind p q := fun d =>
    match p d with
    | (some a, d') => q a d'
    | (none, d') => (none, d')

def garbage : Dec α := fun d => (none, d)

end Dec

namespace XdrDec

def ofChain (segs : List Bytes) : XdrDec := { source := .chain segs, remaining := segs.flatten.length }

def ofFlat (bytes : Bytes) : XdrDec := { source := .flat bytes, remaining := bytes.length }

/-- The loop over empty and finished segments, on the segments from the current one on. -/
def finished : List Bytes → Nat → Nat → Nat × Nat
  | [], seg, off => (seg, off)
  | s :: rest, seg, off => if off = s.length then finished rest (seg + 1) 0 else (seg, off)

/-- The loop over the segments that a field spans: the pieces of the field and where it ends. -/
def pieces : List Bytes → Nat → Nat → Nat → List Bytes × Nat × Nat
  | [], seg, off, _ => ([], seg, off)
  | s :: rest, seg, off, need =>
    if need = 0 then ([], seg, off)
    else if s.length - off = 0 then pieces rest (seg + 1) 0 need
    else if need ≤ s.length - off then ([(s.drop off).take need], seg, off + need)
    else
      let found := pieces rest (seg + 1) 0 (need - (s.length - off))
      (s.drop off :: found.1, found.2)

/-- A contiguous view of the next bytes of a chain, gathered if they span segments. -/
def takeChain (segs : List Bytes) (n : Nat) (d : XdrDec) : Bytes × XdrDec :=
  let cursor := finished (segs.drop d.seg) d.seg d.off
  let s := (segs[cursor.1]?).getD []
  if s.length - cursor.2 ≥ n then
    ((s.drop cursor.2).take n, { d with seg := cursor.1, off := cursor.2 + n, remaining := d.remaining - n })
  else
    let found := pieces (segs.drop cursor.1) cursor.1 cursor.2 n
    (found.1.flatten, { d with seg := found.2.1, off := found.2.2, remaining := d.remaining - n })

def take (n : Nat) : Dec Bytes := fun d =>
  if n > d.remaining then (none, d)
  else if n = 0 then (some [], d)
  else
    match d.source with
    | .flat bytes => (some ((bytes.drop d.off).take n), { d with off := d.off + n, remaining := d.remaining - n })
    | .chain segs => (some (takeChain segs n d).1, (takeChain segs n d).2)

def skip (n : Nat) : Dec Unit := do
  if n = 0 then return () else
    let _ ← take n
    return ()

def u32 : Dec UInt32 := do return RecordStream.be32 (← take 4)

def be64 (bytes : Bytes) : UInt64 := bytes.foldl (fun v b => v * 256 + b.toUInt64) 0

def u64 : Dec UInt64 := do return be64 (← take 8)

def boolean : Dec Bool := do
  let v ← u32
  if v > 1 then Dec.garbage else return v == 1

def opaqueFixed (n : UInt32) : Dec Bytes := do
  let s ← take n.toNat
  skip (Xdr.pad4 n.toNat)
  return s

def opaqueVar (max : UInt32) : Dec Bytes := do
  let len ← u32
  if len > max then Dec.garbage else opaqueFixed len

def string (max : UInt32) : Dec Bytes := opaqueVar max

def views (need : Nat) : Dec (List Bytes) := fun d =>
  if need = 0 then (some [], d)
  else
    match d.source with
    | .flat bytes => (some [(bytes.drop d.off).take need], { d with off := d.off + need, remaining := d.remaining - need })
    | .chain segs =>
      let found := pieces (segs.drop d.seg) d.seg d.off need
      (some found.1, { d with seg := found.2.1, off := found.2.2, remaining := d.remaining - need })

/-- `opaque_spans` with its out-parameter: what is refused before it is cleared leaves it as it was. -/
def opaqueSpans (max : UInt32) (out : List Bytes) (d : XdrDec) : (Option UInt32 × List Bytes) × XdrDec :=
  match u32 d with
  | (none, d) => ((none, out), d)
  | (some len, d) =>
    if len > max then ((none, out), d)
    else if len.toNat > d.remaining then ((none, out), d)
    else
      match views len.toNat d with
      | (none, d) => ((none, out), d)
      | (some spans, d) =>
        match skip (Xdr.pad4 len.toNat) d with
        | (none, d) => ((none, spans), d)
        | (some _, d) => ((some len, spans), d)

end XdrDec

/-! ### What a decoder stands for -/

/-- The bytes that are left. -/
structure Stands (d : XdrDec) (b : Bytes) : Prop where
  remaining : d.remaining = b.length
  source : match d.source with
    | .flat bytes => bytes.drop d.off = b
    | .chain segs => d.off ≤ ((segs[d.seg]?).getD []).length ∧ (segs.drop d.seg).flatten.drop d.off = b

variable {d : XdrDec} {bytes b s rest : Bytes}

theorem stands_ofChain (segs : List Bytes) : Stands (.ofChain segs) segs.flatten := ⟨rfl, Nat.zero_le _, rfl⟩

theorem stands_ofFlat (bytes : Bytes) : Stands (.ofFlat bytes) bytes := ⟨rfl, rfl⟩

theorem finished_spec (l : List Bytes) (seg off : Nat) (hoff : off ≤ (l.head?.getD []).length) :
    ∃ k, (XdrDec.finished l seg off).1 = seg + k ∧
      (XdrDec.finished l seg off).2 ≤ ((l.drop k).head?.getD []).length ∧
      (l.drop k).flatten.drop (XdrDec.finished l seg off).2 = l.flatten.drop off := by
  induction l generalizing seg off with
  | nil => exact ⟨0, rfl, hoff, rfl⟩
  | cons s rest ih =>
    unfold XdrDec.finished
    split
    case isTrue hend =>
      obtain ⟨k, hseg, hle, hrest⟩ := ih (seg + 1) 0 (Nat.zero_le _)
      refine ⟨k + 1, by rw [hseg]; omega, by simpa using hle, ?_⟩
      rw [List.drop_succ_cons, hrest, List.flatten_cons, hend, List.drop_left, List.drop_zero]
    case isFalse => exact ⟨0, rfl, hoff, rfl⟩

theorem pieces_spec (l : List Bytes) (seg off need : Nat) (hoff : off ≤ (l.head?.getD []).length)
    (hneed : need ≤ (l.flatten.drop off).length) :
    (XdrDec.pieces l seg off need).1.flatten = (l.flatten.drop off).take need ∧
      ∃ k, (XdrDec.pieces l seg off need).2.1 = seg + k ∧
        (XdrDec.pieces l seg off need).2.2 ≤ ((l.drop k).head?.getD []).length ∧
        (l.drop k).flatten.drop (XdrDec.pieces l seg off need).2.2 = (l.flatten.drop off).drop need := by
  induction l generalizing seg off need with
  | nil =>
    have hzero : need = 0 := by simpa using hneed
    exact ⟨by simp [XdrDec.pieces], 0, rfl, hoff, by simp [hzero, XdrDec.pieces]⟩
  | cons s rest ih =>
    have hoff : off ≤ s.length := hoff
    have hsplit : (s :: rest).flatten.drop off = s.drop off ++ rest.flatten := by
      rw [List.flatten_cons, List.drop_append_of_le_length hoff]
    rw [hsplit] at hneed ⊢
    unfold XdrDec.pieces
    by_cases hzero : need = 0
    · rw [if_pos hzero, hzero]
      exact ⟨by simp, 0, rfl, hoff, by simpa using hsplit⟩
    rw [if_neg hzero]
    by_cases hend : s.length - off = 0
    · rw [if_pos hend]
      have hnil : s.drop off = [] := List.drop_eq_nil_of_le (by omega)
      rw [hnil, List.nil_append] at hneed ⊢
      obtain ⟨hpieces, k, hseg, hle, hrest⟩ := ih (seg + 1) 0 need (Nat.zero_le _) hneed
      exact ⟨hpieces, k + 1, by rw [hseg]; omega, by simpa using hle, by simpa using hrest⟩
    rw [if_neg hend]
    by_cases hinside : need ≤ s.length - off
    · rw [if_pos hinside]
      have hlen : need ≤ (s.drop off).length := by simpa using hinside
      refine ⟨?_, 0, rfl, ?_, ?_⟩
      · rw [List.take_append_of_le_length hlen]
        simp
      · show off + need ≤ s.length
        omega
      · have hbehind : off + need ≤ s.length := by omega
        show (s :: rest).flatten.drop (off + need) = _
        rw [List.drop_append_of_le_length hlen, List.drop_drop, List.flatten_cons,
          List.drop_append_of_le_length hbehind]
    · rw [if_neg hinside]
      have hlen : (s.drop off).length = s.length - off := List.length_drop
      have hall : (s.drop off).length ≤ need := by omega
      have hmore : need - (s.length - off) ≤ (rest.flatten.drop 0).length := by
        simp only [List.length_append, hlen] at hneed
        rw [List.drop_zero]
        omega
      obtain ⟨hpieces, k, hseg, hle, hrest⟩ := ih (seg + 1) 0 _ (Nat.zero_le _) hmore
      refine ⟨?_, k + 1, ?_, by simpa using hle, ?_⟩
      · rw [List.flatten_cons, hpieces, List.drop_zero, List.take_append, List.take_of_length_le hall, hlen]
      · show (XdrDec.pieces rest (seg + 1) 0 (need - (s.length - off))).2.1 = _
        rw [hseg]
        omega
      · rw [List.drop_succ_cons, hrest, List.drop_zero, List.drop_append, List.drop_eq_nil_of_le hall, List.nil_append,
          hlen]

theorem flatten_drop (segs : List Bytes) (seg : Nat) :
    (segs.drop seg).flatten = (segs[seg]?).getD [] ++ (segs.drop (seg + 1)).flatten := by
  by_cases hseg : seg < segs.length
  · rw [List.drop_eq_getElem_cons hseg, List.flatten_cons, List.getElem?_eq_getElem hseg, Option.getD_some]
  · rw [List.drop_eq_nil_of_le (by omega), List.drop_eq_nil_of_le (by omega), List.getElem?_eq_none (by omega)]
    rfl

theorem takeChain_spec {segs : List Bytes} (hsource : d.source = .chain segs)
    (h : Stands d b) {n : Nat} (hn : n ≤ b.length) :
    (XdrDec.takeChain segs n d).1 = b.take n ∧ Stands (XdrDec.takeChain segs n d).2 (b.drop n) := by
  obtain ⟨hremaining, hleft⟩ := h
  rw [hsource] at hleft
  obtain ⟨hoff, hb⟩ := hleft
  rw [← List.head?_drop] at hoff
  obtain ⟨k, hseg, hle, hrest⟩ := finished_spec (segs.drop d.seg) d.seg d.off hoff
  rw [List.drop_drop, List.head?_drop] at hle
  rw [List.drop_drop, hb] at hrest
  unfold XdrDec.takeChain
  generalize XdrDec.finished (segs.drop d.seg) d.seg d.off = cursor at hseg hle hrest ⊢
  obtain ⟨seg, off⟩ := cursor
  obtain rfl : seg = d.seg + k := hseg
  dsimp only at hle hrest ⊢
  split
  case isTrue hinside =>
    have hleft : b = ((segs[d.seg + k]?).getD []).drop off ++ (segs.drop (d.seg + k + 1)).flatten := by
      rw [← hrest, flatten_drop, List.drop_append_of_le_length hle]
    have hlen : n ≤ (((segs[d.seg + k]?).getD []).drop off).length := by simpa using hinside
    refine ⟨by rw [hleft, List.take_append_of_le_length hlen], ?_, ?_⟩
    · simp [hremaining]
    · simp only [hsource]
      refine ⟨by omega, ?_⟩
      rw [← List.drop_drop, hrest]
  case isFalse =>
    have hcursor : off ≤ ((segs.drop (d.seg + k)).head?.getD []).length := by rwa [List.head?_drop]
    obtain ⟨hpieces, j, hseg', hle', hrest'⟩ :=
      pieces_spec (segs.drop (d.seg + k)) (d.seg + k) off n hcursor (by rwa [hrest])
    rw [hrest] at hpieces hrest'
    rw [List.drop_drop, List.head?_drop] at hle'
    rw [List.drop_drop] at hrest'
    refine ⟨hpieces, by simp [hremaining], ?_⟩
    simp only [hsource, hseg']
    exact ⟨hle', hrest'⟩

theorem take_spec (h : Stands d b) (n : Nat) :
    if n ≤ b.length then (XdrDec.take n d).1 = some (b.take n) ∧ Stands (XdrDec.take n d).2 (b.drop n)
    else XdrDec.take n d = (none, d) := by
  split
  case isFalse hn => rw [XdrDec.take, if_pos (by rw [h.remaining]; omega)]
  case isTrue hn =>
    unfold XdrDec.take
    rw [if_neg (by rw [h.remaining]; omega)]
    by_cases hzero : n = 0
    · rw [if_pos hzero, hzero]
      exact ⟨by simp, by simpa using h⟩
    rw [if_neg hzero]
    cases hsource : d.source with
    | flat bytes =>
      have hleft : bytes.drop d.off = b := by simpa [hsource] using h.source
      refine ⟨congrArg (fun left => some (left.take n)) hleft, by simp [h.remaining], ?_⟩
      simp only [← hleft, List.drop_drop]
    | chain segs =>
      obtain ⟨hvalue, hstands⟩ := takeChain_spec hsource h hn
      exact ⟨congrArg some hvalue, hstands⟩

/-! ### Calls that do not see the segments -/

def Same (d e : XdrDec) : Prop := ∃ b, Stands d b ∧ Stands e b

/-- A call that answers the same wherever the same bytes are left. -/
def Uniform {α : Type} (p : Dec α) : Prop := ∀ d e, Same d e → (p d).1 = (p e).1 ∧ Same (p d).2 (p e).2

namespace Uniform

variable {α β : Type}

theorem pure (a : α) : Uniform (Pure.pure a : Dec α) := fun _ _ h => ⟨rfl, h⟩

theorem garbage : Uniform (Dec.garbage : Dec α) := fun _ _ h => ⟨rfl, h⟩

theorem bind {p : Dec α} {q : α → Dec β} (hp : Uniform p) (hq : ∀ a, Uniform (q a)) : Uniform (p >>= q) := by
  intro d e h
  obtain ⟨hresult, hsame⟩ := hp d e h
  simp only [Bind.bind]
  generalize p d = x at hresult hsame
  generalize p e = y at hresult hsame
  obtain ⟨_ | a, d'⟩ := x <;> obtain ⟨_ | a', e'⟩ := y <;> simp only [reduceCtorEq, Option.some.injEq] at hresult
  · exact ⟨rfl, hsame⟩
  · subst hresult
    exact hq a d' e' hsame

theorem ite {c : Prop} [Decidable c] {p q : Dec α} (hp : Uniform p) (hq : Uniform q) : Uniform (if c then p else q) := by
  split <;> assumption

theorem take (n : Nat) : Uniform (XdrDec.take n) := by
  rintro d e ⟨b, hd, he⟩
  have hd' := take_spec hd n
  have he' := take_spec he n
  by_cases hn : n ≤ b.length
  · rw [if_pos hn] at hd' he'
    exact ⟨hd'.1.trans he'.1.symm, _, hd'.2, he'.2⟩
  · rw [if_neg hn] at hd' he'
    rw [hd', he']
    exact ⟨rfl, b, hd, he⟩

theorem skip (n : Nat) : Uniform (XdrDec.skip n) := ite (pure ()) (bind (take n) fun _ => pure ())

theorem u32 : Uniform XdrDec.u32 := bind (take 4) fun _ => pure _

theorem u64 : Uniform XdrDec.u64 := bind (take 8) fun _ => pure _

theorem boolean : Uniform XdrDec.boolean := bind u32 fun _ => ite garbage (pure _)

theorem opaqueFixed (n : UInt32) : Uniform (XdrDec.opaqueFixed n) :=
  bind (take n.toNat) fun _ => bind (skip _) fun _ => pure _

theorem opaqueVar (max : UInt32) : Uniform (XdrDec.opaqueVar max) := bind u32 fun _ => ite garbage (opaqueFixed _)

end Uniform

theorem views_spec (h : Stands d b) {n : Nat} (hn : n ≤ b.length) :
    ∃ spans, (XdrDec.views n d).1 = some spans ∧ spans.flatten = b.take n ∧ Stands (XdrDec.views n d).2 (b.drop n) := by
  unfold XdrDec.views
  by_cases hzero : n = 0
  · rw [if_pos hzero, hzero]
    exact ⟨[], rfl, by simp, by simpa using h⟩
  rw [if_neg hzero]
  have hleft := h.source
  cases hsource : d.source with
  | flat bytes =>
    rw [hsource] at hleft
    refine ⟨_, rfl, by simp [hleft], by simp [h.remaining], ?_⟩
    simp only [← hleft, List.drop_drop]
  | chain segs =>
    rw [hsource] at hleft
    obtain ⟨hoff, hb⟩ := hleft
    rw [← List.head?_drop] at hoff
    obtain ⟨hpieces, k, hseg, hle, hrest⟩ := pieces_spec (segs.drop d.seg) d.seg d.off n hoff (by rwa [hb])
    rw [hb] at hpieces hrest
    rw [List.drop_drop, List.head?_drop] at hle
    rw [List.drop_drop] at hrest
    refine ⟨_, rfl, hpieces, by simp [h.remaining], ?_⟩
    simp only [hseg]
    exact ⟨hle, hrest⟩

theorem Same.remaining {e : XdrDec} (h : Same d e) : d.remaining = e.remaining := by
  obtain ⟨b, hd, he⟩ := h
  rw [hd.remaining, he.remaining]

theorem uniform_opaqueSpans (max : UInt32) {out out' : List Bytes} (hout : out.flatten = out'.flatten) {e : XdrDec}
    (h : Same d e) :
    (XdrDec.opaqueSpans max out d).1.1 = (XdrDec.opaqueSpans max out' e).1.1 ∧
      (XdrDec.opaqueSpans max out d).1.2.flatten = (XdrDec.opaqueSpans max out' e).1.2.flatten ∧
      Same (XdrDec.opaqueSpans max out d).2 (XdrDec.opaqueSpans max out' e).2 := by
  obtain ⟨hlen, hsame⟩ := Uniform.u32 d e h
  unfold XdrDec.opaqueSpans
  generalize XdrDec.u32 d = x at hlen hsame
  generalize XdrDec.u32 e = y at hlen hsame
  obtain ⟨_ | len, d'⟩ := x <;> obtain ⟨_ | len', e'⟩ := y <;> simp only [reduceCtorEq, Option.some.injEq] at hlen
  · exact ⟨rfl, hout, hsame⟩
  subst hlen
  dsimp only at hsame ⊢
  by_cases hmax : len > max
  · rw [if_pos hmax, if_pos hmax]
    exact ⟨rfl, hout, hsame⟩
  rw [if_neg hmax, if_neg hmax, ← hsame.remaining]
  by_cases hmore : len.toNat > d'.remaining
  · rw [if_pos hmore, if_pos hmore]
    exact ⟨rfl, hout, hsame⟩
  rw [if_neg hmore, if_neg hmore]
  obtain ⟨b, hd, he⟩ := hsame
  have hle : len.toNat ≤ b.length := by
    rw [hd.remaining] at hmore
    omega
  obtain ⟨spans, hspans, hflat, hd'⟩ := views_spec hd hle
  obtain ⟨spans', hspans', hflat', he'⟩ := views_spec he hle
  generalize XdrDec.views len.toNat d' = x at hspans hd' ⊢
  generalize XdrDec.views len.toNat e' = y at hspans' he' ⊢
  obtain ⟨_, d''⟩ := x
  obtain ⟨_, e''⟩ := y
  obtain rfl := hspans
  obtain rfl := hspans'
  obtain ⟨hskip, hsame⟩ := Uniform.skip (Xdr.pad4 len.toNat) d'' e'' ⟨_, hd', he'⟩
  dsimp only
  generalize XdrDec.skip (Xdr.pad4 len.toNat) d'' = x at hskip hsame
  generalize XdrDec.skip (Xdr.pad4 len.toNat) e'' = y at hskip hsame
  have hpieces := hflat.trans hflat'.symm
  obtain ⟨_ | u, d3⟩ := x <;> obtain ⟨_ | u', e3⟩ := y <;> simp only [reduceCtorEq] at hskip
  · exact ⟨rfl, hpieces, hsame⟩
  · exact ⟨rfl, hpieces, hsame⟩

/-! ### Sequences of calls -/

inductive DecCall where
  | u32
  | u64
  | boolean
  | opaqueFixed (n : UInt32)
  | opaqueVar (max : UInt32)
  | string (max : UInt32)
  | opaqueSpans (max : UInt32)
  | skip (n : Nat)

inductive DecValue where
  | word (v : UInt32)
  | dword (v : UInt64)
  | truth (b : Bool)
  | bytes (s : Bytes)
  | length (n : UInt32)
  | done
deriving DecidableEq

/-- What a caller sees after a call: the value, nothing for `kGarbage`, how much is left, and the bytes that its spans
show. -/
structure DecAnswer where
  value : Option DecValue
  remaining : Nat
  spans : Bytes
deriving DecidableEq

/-- A decoder and the spans of the last `opaque_spans`. -/
structure DecSession where
  dec : XdrDec
  out : List Bytes := []

namespace DecSession

/-- A call that leaves the spans alone. -/
def plain {α : Type} (s : DecSession) (p : Dec α) (value : α → DecValue) : DecAnswer × DecSession :=
  let answer := p s.dec
  (⟨answer.1.map value, answer.2.remaining, s.out.flatten⟩, { s with dec := answer.2 })

def step (s : DecSession) : DecCall → DecAnswer × DecSession
  | .u32 => s.plain XdrDec.u32 .word
  | .u64 => s.plain XdrDec.u64 .dword
  | .boolean => s.plain XdrDec.boolean .truth
  | .opaqueFixed n => s.plain (XdrDec.opaqueFixed n) .bytes
  | .opaqueVar max => s.plain (XdrDec.opaqueVar max) .bytes
  | .string max => s.plain (XdrDec.string max) .bytes
  | .skip n => s.plain (XdrDec.skip n) fun _ => .done
  | .opaqueSpans max =>
    let answer := XdrDec.opaqueSpans max s.out s.dec
    (⟨answer.1.1.map .length, answer.2.remaining, answer.1.2.flatten⟩, ⟨answer.2, answer.1.2⟩)

def answers (s : DecSession) : List DecCall → List DecAnswer
  | [] => []
  | c :: calls => (s.step c).1 :: (s.step c).2.answers calls

/-- The same bytes are left and shown. -/
def Like (s t : DecSession) : Prop := Same s.dec t.dec ∧ s.out.flatten = t.out.flatten

theorem like_plain {α : Type} {s t : DecSession} (h : Like s t) {p : Dec α} (hp : Uniform p) (value : α → DecValue) :
    (s.plain p value).1 = (t.plain p value).1 ∧ Like (s.plain p value).2 (t.plain p value).2 := by
  obtain ⟨hvalue, hsame⟩ := hp s.dec t.dec h.1
  simp only [plain, hvalue, hsame.remaining, h.2]
  exact ⟨trivial, hsame, h.2⟩

theorem like_step {s t : DecSession} (h : Like s t) (c : DecCall) :
    (s.step c).1 = (t.step c).1 ∧ Like (s.step c).2 (t.step c).2 := by
  cases c with
  | u32 => exact like_plain h .u32 _
  | u64 => exact like_plain h .u64 _
  | boolean => exact like_plain h .boolean _
  | opaqueFixed n => exact like_plain h (.opaqueFixed n) _
  | opaqueVar max => exact like_plain h (.opaqueVar max) _
  | string max => exact like_plain h (.opaqueVar max) _
  | skip n => exact like_plain h (.skip n) _
  | opaqueSpans max =>
    obtain ⟨hvalue, hspans, hsame⟩ := uniform_opaqueSpans max h.2 h.1
    simp only [step, hvalue, hspans, hsame.remaining]
    exact ⟨trivial, hsame, hspans⟩

theorem like_answers {s t : DecSession} (h : Like s t) (calls : List DecCall) : s.answers calls = t.answers calls := by
  induction calls generalizing s t with
  | nil => rfl
  | cons c calls ih =>
    obtain ⟨hanswer, hnext⟩ := like_step h c
    rw [answers, answers, hanswer, ih hnext]

end DecSession

/-! ### Reading back -/

/-- The call reads these bytes as this value, whatever follows. -/
def Decodes {α : Type} (p : Dec α) (s : Bytes) (v : α) : Prop :=
  ∀ d rest, Stands d (s ++ rest) → ∃ d', p d = (some v, d') ∧ Stands d' rest

namespace Decodes

variable {α β : Type}

theorem pure (a : α) : Decodes (Pure.pure a : Dec α) [] a := fun d _ h => ⟨d, rfl, h⟩

theorem bind {p : Dec α} {q : α → Dec β} {s t : Bytes} {a : α} {b : β} (hp : Decodes p s a) (hq : Decodes (q a) t b) :
    Decodes (p >>= q) (s ++ t) b := by
  intro d rest h
  rw [List.append_assoc] at h
  obtain ⟨d', hresult, hleft⟩ := hp d _ h
  obtain ⟨d'', hresult', hleft'⟩ := hq d' rest hleft
  exact ⟨d'', by simp only [Bind.bind, hresult, hresult'], hleft'⟩

theorem map {p : Dec α} {s : Bytes} {a : α} (hp : Decodes p s a) (f : α → β) :
    Decodes (do return f (← p)) s (f a) := by
  have hbind := hp.bind (q := fun a => Pure.pure (f a)) (pure (f a))
  rwa [List.append_nil] at hbind

theorem take (s : Bytes) : Decodes (XdrDec.take s.length) s s := by
  intro d rest h
  have htake := take_spec h s.length
  rw [if_pos (by simp), List.take_left, List.drop_left] at htake
  exact ⟨_, Prod.ext htake.1 rfl, htake.2⟩

theorem skip (s : Bytes) : Decodes (XdrDec.skip s.length) s () := by
  unfold XdrDec.skip
  split
  case isTrue hzero =>
    rw [List.length_eq_zero_iff.1 hzero]
    exact pure ()
  case isFalse => exact (take s).map fun _ => ()

theorem u32 (v : UInt32) : Decodes XdrDec.u32 (Xdr.putU32 v) v := by
  have hword := (take (Xdr.putU32 v)).map RecordStream.be32
  rwa [Xdr.be32_putU32] at hword

end Decodes

theorem foldl_putU32 (v : UInt64) (w : UInt32) :
    (Xdr.putU32 w).foldl (fun v b => v * 256 + b.toUInt64) v = v * 4294967296 + w.toUInt64 := by
  apply UInt64.toNat_inj.mp
  have hw := w.toNat_lt
  simp only [Xdr.putU32, List.foldl_cons, List.foldl_nil, UInt64.toNat_add, UInt64.toNat_mul, UInt8.toNat_toUInt64,
    UInt32.toNat_toUInt8, UInt32.toNat_toUInt64, UInt32.toNat_shiftRight, UInt64.reduceToNat, UInt32.reduceToNat,
    Nat.reduceMod, Nat.shiftRight_eq_div_pow]
  omega

theorem be64_putU64 (v : UInt64) : XdrDec.be64 (Xdr.putU64 v) = v := by
  rw [XdrDec.be64, Xdr.putU64, List.foldl_append, foldl_putU32, foldl_putU32]
  apply UInt64.toNat_inj.mp
  have hv := v.toNat_lt
  simp only [UInt64.toNat_add, UInt64.toNat_mul, UInt32.toNat_toUInt64, UInt64.toNat_toUInt32,
    UInt64.toNat_shiftRight, UInt64.reduceToNat, Nat.reduceMod, Nat.shiftRight_eq_div_pow]
  omega

namespace Decodes

theorem u64 (v : UInt64) : Decodes XdrDec.u64 (Xdr.putU64 v) v := by
  have hword := (take (Xdr.putU64 v)).map XdrDec.be64
  rwa [be64_putU64] at hword

theorem boolean (b : Bool) : Decodes XdrDec.boolean (Xdr.putBool b) b := by
  have hvalue : Decodes (if (if b then 1 else 0 : UInt32) > 1 then Dec.garbage else
      Pure.pure ((if b then 1 else 0 : UInt32) == 1)) [] b := by
    cases b <;> exact pure _
  have hbind := (u32 (if b then 1 else 0)).bind (q := fun v => if v > 1 then Dec.garbage else Pure.pure (v == 1)) hvalue
  rwa [List.append_nil] at hbind

theorem opaqueFixed {s : Bytes} (hs : s.length < 2 ^ 32) :
    Decodes (XdrDec.opaqueFixed (UInt32.ofNat s.length)) (Xdr.putOpaqueFixed s) s := by
  have hlen : (UInt32.ofNat s.length).toNat = s.length := by
    rw [UInt32.toNat_ofNat']
    exact Nat.mod_eq_of_lt hs
  have hpad := skip (List.replicate (Xdr.pad4 s.length) 0)
  rw [List.length_replicate] at hpad
  unfold XdrDec.opaqueFixed
  rw [hlen]
  exact (take s).bind (hpad.map fun _ => s)

theorem opaqueVar {s : Bytes} {max : UInt32} (hs : s.length ≤ max.toNat) :
    Decodes (XdrDec.opaqueVar max) (Xdr.putOpaque s) s := by
  have hmax := max.toNat_lt
  have hlen : ¬UInt32.ofNat s.length > max := by
    rw [gt_iff_lt, UInt32.lt_iff_toNat_lt, UInt32.toNat_ofNat', Nat.mod_eq_of_lt (by omega)]
    omega
  refine (u32 (UInt32.ofNat s.length)).bind ?_
  rw [if_neg hlen]
  exact opaqueFixed (by omega)

end Decodes

theorem opaqueSpans_reads {max : UInt32} (hs : s.length ≤ max.toNat) (out : List Bytes)
    (h : Stands d (Xdr.putOpaque s ++ rest)) :
    ∃ spans d', XdrDec.opaqueSpans max out d = ((some (UInt32.ofNat s.length), spans), d') ∧ spans.flatten = s ∧
      Stands d' rest := by
  have hmax := max.toNat_lt
  have hlen : (UInt32.ofNat s.length).toNat = s.length := by
    rw [UInt32.toNat_ofNat']
    exact Nat.mod_eq_of_lt (by omega)
  rw [Xdr.putOpaque, Xdr.putOpaqueFixed, List.append_assoc, List.append_assoc] at h
  obtain ⟨d₁, hword, h₁⟩ := Decodes.u32 _ d _ h
  have hfits : ¬UInt32.ofNat s.length > max := by
    rw [gt_iff_lt, UInt32.lt_iff_toNat_lt, hlen]
    omega
  have hmore : ¬s.length > d₁.remaining := by
    rw [h₁.remaining, List.length_append]
    omega
  obtain ⟨spans, hspans, hflat, h₂⟩ := views_spec h₁ (n := s.length) (by simp)
  rw [List.take_left] at hflat
  rw [List.drop_left] at h₂
  have hpad := Decodes.skip (List.replicate (Xdr.pad4 s.length) 0) _ rest h₂
  rw [List.length_replicate] at hpad
  obtain ⟨d₃, hskip, h₃⟩ := hpad
  have hviews : XdrDec.views s.length d₁ = (some spans, (XdrDec.views s.length d₁).2) := Prod.ext hspans rfl
  refine ⟨spans, d₃, ?_, hflat, h₃⟩
  unfold XdrDec.opaqueSpans
  simp only [hword, if_neg hfits, hlen, if_neg hmore]
  rw [hviews]
  simp only [hskip]

/-! ### Encoding and decoding again -/

/-- A value that is encoded and read back by the call for it, or passed over. -/
inductive XdrItem where
  | u32 (v : UInt32)
  | u64 (v : UInt64)
  | boolean (b : Bool)
  | opaqueFixed (s : Bytes)
  | opaqueVar (s : Bytes) (max : UInt32)
  | string (s : Bytes) (max : UInt32)
  | opaqueSpans (s : Bytes) (max : UInt32)
  | skip (c : EncCall)

def EncCall.size (c : EncCall) : Nat := (c.cells fun _ _ => 0).length

theorem EncCall.length_cells (mem : Nat → Nat → UInt8) (c : EncCall) : (c.cells mem).length = c.size := by
  cases c <;> simp [EncCall.size, EncCall.cells]

namespace XdrItem

def encCall : XdrItem → EncCall
  | .u32 v => .u32 v
  | .u64 v => .u64 v
  | .boolean b => .boolean b
  | .opaqueFixed s => .opaqueFixed s
  | .opaqueVar s _ => .opaqueVar s
  | .string s _ => .string s
  | .opaqueSpans s _ => .opaqueVar s
  | .skip c => c

def decCall : XdrItem → DecCall
  | .u32 _ => .u32
  | .u64 _ => .u64
  | .boolean _ => .boolean
  | .opaqueFixed s => .opaqueFixed (UInt32.ofNat s.length)
  | .opaqueVar _ max => .opaqueVar max
  | .string _ max => .string max
  | .opaqueSpans _ max => .opaqueSpans max
  | .skip c => .skip c.size

def value : XdrItem → DecValue
  | .u32 v => .word v
  | .u64 v => .dword v
  | .boolean b => .truth b
  | .opaqueFixed s => .bytes s
  | .opaqueVar s _ => .bytes s
  | .string s _ => .bytes s
  | .opaqueSpans s _ => .length (UInt32.ofNat s.length)
  | .skip _ => .done

/-- What the spans show once the item is read. -/
def shown (before : Bytes) : XdrItem → Bytes
  | .opaqueSpans s _ => s
  | _ => before

/-- The lengths that a call can be told: no more than the maximum it is given, and 32 bits. -/
def Bounded : XdrItem → Prop
  | .opaqueFixed s => s.length < 2 ^ 32
  | .opaqueVar s max | .string s max | .opaqueSpans s max => s.length ≤ max.toNat
  | .skip c => c.Sized
  | _ => True

theorem Bounded.sized {i : XdrItem} (h : i.Bounded) : i.encCall.Sized := by
  cases i with
  | opaqueFixed s => exact h
  | skip c => exact h
  | opaqueVar s max | string s max | opaqueSpans s max =>
    have hmax := max.toNat_lt
    exact Nat.lt_of_le_of_lt h hmax
  | _ => trivial

/-- Each value in turn, with what the later ones take left. -/
def answers : Bytes → List XdrItem → List DecAnswer
  | _, [] => []
  | before, i :: items =>
    ⟨some i.value, (items.map fun i => i.encCall.size).sum, i.shown before⟩ :: answers (i.shown before) items

end XdrItem

theorem eq_of_fits {t : Bytes} (h : List.Forall₂ Cell.Fits (s.map some) t) : t = s := by
  induction s generalizing t with
  | nil => simpa using h
  | cons b s ih =>
    obtain ⟨b', t', hb, ht, rfl⟩ := List.forall₂_cons_left_iff.1 h
    rw [hb b rfl, ih ht]

theorem DecSession.plain_reads {α : Type} {p : Dec α} {v : α} (hp : Decodes p bytes v)
    (value : α → DecValue) {s : DecSession} (h : Stands s.dec (bytes ++ rest)) :
    ∃ s', s.plain p value = (⟨some (value v), rest.length, s.out.flatten⟩, s') ∧ Stands s'.dec rest ∧
      s'.out = s.out := by
  obtain ⟨d', hresult, hleft⟩ := hp s.dec rest h
  refine ⟨{ s with dec := d' }, ?_, hleft, rfl⟩
  simp only [DecSession.plain, hresult, hleft.remaining, Option.map_some]

theorem DecSession.step_reads {i : XdrItem} (hi : i.Bounded) {mem : Nat → Nat → UInt8}
    (hfits : List.Forall₂ Cell.Fits (i.encCall.cells mem) bytes) {s : DecSession} (h : Stands s.dec (bytes ++ rest)) :
    ∃ s', s.step i.decCall = (⟨some i.value, rest.length, i.shown s.out.flatten⟩, s') ∧ Stands s'.dec rest ∧
      s'.out.flatten = i.shown s.out.flatten := by
  have plain {α : Type} {p : Dec α} {v : α} (hp : Decodes p bytes v) (value : α → DecValue) :
      ∃ s', s.plain p value = (⟨some (value v), rest.length, s.out.flatten⟩, s') ∧ Stands s'.dec rest ∧
        s'.out.flatten = s.out.flatten := by
    obtain ⟨s', hstep, hleft, hout⟩ := plain_reads hp value h
    exact ⟨s', hstep, hleft, by rw [hout]⟩
  cases i with
  | u32 v => exact plain (eq_of_fits hfits ▸ .u32 v) _
  | u64 v => exact plain (eq_of_fits hfits ▸ .u64 v) _
  | boolean b => exact plain (eq_of_fits hfits ▸ .boolean b) _
  | opaqueFixed b => exact plain (eq_of_fits hfits ▸ .opaqueFixed hi) _
  | opaqueVar b max => exact plain (eq_of_fits hfits ▸ .opaqueVar hi) _
  | string b max => exact plain (eq_of_fits hfits ▸ .opaqueVar hi) _
  | skip c =>
    have hlen : c.size = bytes.length := by rw [← hfits.length_eq, XdrItem.encCall, EncCall.length_cells]
    have hskip := plain (.skip bytes) fun _ => .done
    rwa [← hlen] at hskip
  | opaqueSpans b max =>
    rw [eq_of_fits hfits] at h
    obtain ⟨spans, d', hstep, hflat, hleft⟩ := opaqueSpans_reads hi s.out h
    refine ⟨⟨d', spans⟩, ?_, hleft, hflat⟩
    simp only [DecSession.step, XdrItem.decCall, hstep, hflat, hleft.remaining, Option.map_some]
    rfl

inductive Encoded : List XdrItem → Bytes → Prop
  | nil : Encoded [] []
  | cons {i : XdrItem} {items : List XdrItem} {s t : Bytes} (mem : Nat → Nat → UInt8)
      (head : List.Forall₂ Cell.Fits (i.encCall.cells mem) s) (tail : Encoded items t) : Encoded (i :: items) (s ++ t)

theorem Encoded.length {items : List XdrItem} (h : Encoded items bytes) :
    bytes.length = (items.map fun i => i.encCall.size).sum := by
  induction h with
  | nil => rfl
  | cons mem head tail ih => rw [List.length_append, ih, ← head.length_eq, EncCall.length_cells, List.map_cons, List.sum_cons]

theorem encoded_run (pool : BufferPool) (limit : Nat) (items : List XdrItem) (hitems : ∀ i ∈ items, i.Bounded)
    {e : XdrEnc} (he : e.shape.Wf) :
    ∃ bytes, Encoded items bytes ∧
      XdrEnc.Appended e (items.foldl (fun e i => e.call pool limit i.encCall) e) bytes := by
  induction items generalizing e with
  | nil => exact ⟨[], .nil, .refl he⟩
  | cons i items ih =>
    obtain ⟨s, happended, hfits⟩ := appended_call pool limit he (hitems i (by simp)).sized
    obtain ⟨t, hencoded, happended'⟩ := ih (fun j hj => hitems j (by simp [hj])) happended.wf
    exact ⟨s ++ t, .cons _ hfits hencoded, happended.trans happended'⟩

theorem DecSession.answers_encoded {items : List XdrItem} (h : Encoded items bytes)
    (hitems : ∀ i ∈ items, i.Bounded) {s : DecSession} (hs : Stands s.dec bytes) :
    s.answers (items.map XdrItem.decCall) = XdrItem.answers s.out.flatten items := by
  induction h generalizing s with
  | nil => rfl
  | @cons i items b t mem head tail ih =>
    obtain ⟨s', hstep, hleft, hout⟩ := step_reads (hitems i (by simp)) head hs
    rw [List.map_cons, DecSession.answers, hstep, XdrItem.answers, ih (fun j hj => hitems j (by simp [hj])) hleft, hout,
      tail.length]

def encodeItems (pool : BufferPool) (limit : Nat) (items : List XdrItem) : XdrEnc :=
  items.foldl (fun e i => e.call pool limit i.encCall) {}

/-- Decoding does not see how the bytes were cut: on every chain every sequence of calls answers as on the bytes in one
piece. And items that the encoder put into a chain, wherever its buffers end, are read back in turn, each to its last
byte, if their lengths have 32 bits and are within the maximum that is asked for. -/
theorem decoding_exact :
    (∀ segs calls out, DecSession.answers ⟨.ofChain segs, out⟩ calls = DecSession.answers ⟨.ofFlat segs.flatten, out⟩ calls) ∧
      ∀ pool limit items, (∀ i ∈ items, XdrItem.Bounded i) →
        DecSession.answers ⟨.ofChain (encodeItems pool limit items).taken, []⟩ (items.map XdrItem.decCall) =
          XdrItem.answers [] items := by
  refine ⟨fun segs calls out => ?_, fun pool limit items hitems => ?_⟩
  · have hsame : Same (.ofChain segs) (.ofFlat segs.flatten) := ⟨_, stands_ofChain segs, stands_ofFlat _⟩
    exact DecSession.like_answers (s := ⟨_, out⟩) (t := ⟨_, out⟩) ⟨hsame, rfl⟩ calls
  · have hfresh : (({} : XdrEnc).shape).Wf := ⟨fun _ => rfl, nofun, nofun, nofun⟩
    obtain ⟨bytes, hencoded, happended⟩ := encoded_run pool limit items hitems hfresh
    have hbytes : (encodeItems pool limit items).taken.flatten = bytes := by
      rw [encodeItems, taken_flatten happended.wf]
      exact happended.content
    have hstands := stands_ofChain (encodeItems pool limit items).taken
    rw [hbytes] at hstands
    exact DecSession.answers_encoded hencoded hitems hstands

theorem decoding_exact_pair :
    DecSession.answers ⟨.ofChain (encodeItems eagerPool 64 [.boolean true, .opaqueSpans [7] 8]).taken, []⟩
        [.boolean, .opaqueSpans 8] =
      [⟨some (.truth true), 8, []⟩, ⟨some (.length 1), 0, [7]⟩] :=
  decoding_exact.2 eagerPool 64 [.boolean true, .opaqueSpans [7] 8] (by simp [XdrItem.Bounded])

/-- An opaque of as many bytes as 32 bits can count is encoded with length zero and its block is lost from the chain. -/
theorem encode_wraps (hs : s.length = 2 ^ 32) :
    (encodeItems eagerPool 0 [.opaqueVar s 0xffffffff]).taken = [[0, 0, 0, 0]] := by
  let e : XdrEnc := XdrEnc.put eagerPool 0 [0, 0, 0, 0] {}
  have hne : s ≠ [] := by
    rintro rfl
    cases hs
  have hlen : UInt32.ofNat s.length = 0 := by rw [hs]; rfl
  have hpad : Xdr.pad4 s.length = 0 := by rw [hs]; rfl
  have hbig : ¬e.fitsTail (2 ^ 32) = true := by decide
  have hcall : encodeItems eagerPool 0 [.opaqueVar s 0xffffffff] =
      (((e.closeTail.allocTail eagerPool (2 ^ 32)).write s).advance (2 ^ 32)).checkLimit 0 := by
    show XdrEnc.opaqueVar eagerPool 0 s {} = _
    rw [XdrEnc.opaqueVar, XdrEnc.opaqueFixed, hlen, hpad, List.replicate_zero]
    show XdrEnc.put eagerPool 0 s e = _
    rw [XdrEnc.put, if_neg hne, XdrEnc.ensure, hs, if_neg hbig]
  have hout : (e.closeTail.allocTail eagerPool (2 ^ 32)).out = [⟨⟨0, 4096⟩, 0, 4⟩] := rfl
  have htail : (e.closeTail.allocTail eagerPool (2 ^ 32)).tail.map (·.addr) = some 1 := rfl
  have hused : (e.closeTail.allocTail eagerPool (2 ^ 32)).tailUsed = 0 := rfl
  have hmem : Buffer.slice ((e.closeTail.allocTail eagerPool (2 ^ 32)).mem 0) 0 4 = [0, 0, 0, 0] := rfl
  rw [hcall]
  generalize e.closeTail.allocTail eagerPool (2 ^ 32) = fresh at hout htail hused hmem
  cases hbuf : fresh.tail with
  | none => simp [hbuf] at htail
  | some buf =>
    have haddr : buf.addr = 1 := by simpa [hbuf] using htail
    simp [XdrEnc.taken, XdrEnc.closeTail, XdrEnc.checkLimit, XdrEnc.advance, XdrEnc.write, hbuf, hused, appendSeg, hout,
      haddr, hmem]

theorem opaque_wraps :
    DecSession.answers
        ⟨.ofChain (encodeItems eagerPool 0 [.opaqueVar (List.replicate (2 ^ 32) 1) 0xffffffff]).taken, []⟩
        [.opaqueVar 0xffffffff] =
      [⟨some (.bytes []), 0, []⟩] := by
  rw [encode_wraps (List.length_replicate ..)]
  decide

end LightNfs
