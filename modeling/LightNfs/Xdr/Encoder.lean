import Mathlib
import LightNfs.Lib.Buffer
import LightNfs.Lib.System
import LightNfs.Xdr.Enc

/-!
# The encoder

`XdrEnc` appends into buffers of a pool. A mark notes where it stands and a rollback takes everything after the mark
back: it knows the buffer that was open at the mark by its address, and opens it again if it was closed since. The
pool may hand out any address that is not in use, so one that was in use before the rollback too.
-/

namespace LightNfs

open Function

/-! ### Buffers and chains -/

/-- `rt::Buffer`: where the block is and how much it holds. -/
structure Buf where
  addr : Nat
  cap : Nat
deriving DecidableEq

structure Seg where
  buf : Buf
  off : Nat
  len : Nat
deriving DecidableEq

def kClassCaps : List Nat := [4 * 1024, 64 * 1024, 128 * 1024, 256 * 1024, 1024 * 1024]

def kSmall : Nat := 4 * 1024

/-- The capacity of the block that `BufferPool::alloc` gives: a class, or the size itself in 32 bits. -/
def blockCapacity (n : Nat) : Nat := (kClassCaps.find? (n ≤ ·)).getD (n % 2 ^ 32)

/-- `BufferPool`: the address of the next block, any that is not in use. -/
structure BufferPool where
  address : Nat → List Nat → Nat
  unused : ∀ count live, address count live ∉ live

/-- `BufferChain::append`. -/
def appendSeg (out : List Seg) (seg : Seg) : List Seg := if seg.len = 0 then out else out ++ [seg]

/-! ### The encoder's calls -/

/-- `XdrEnc`, with the memory of all blocks and the number of blocks it was given. -/
structure XdrEnc where
  mem : Nat → Nat → UInt8 := fun _ _ => 0
  out : List Seg := []
  tail : Option Buf := none
  tailUsed : Nat := 0
  size : Nat := 0
  overflow : Bool := false
  allocs : Nat := 0

structure EncMark where
  segs : Nat
  size : Nat
  tailUsed : Nat
  tailId : Option Nat
  overflow : Bool
deriving DecidableEq

/-- The calls that encode. -/
inductive EncCall where
  | u32 (v : UInt32)
  | u64 (v : UInt64)
  | boolean (b : Bool)
  | opaqueFixed (s : Bytes)
  | opaqueVar (s : Bytes)
  | string (s : Bytes)
  | rawGap (n : Nat)
  | attach (data : Buf) (off : Nat) (len : UInt32)

namespace XdrEnc

def live (e : XdrEnc) : List Nat := e.out.map (·.buf.addr)

/-- `close_tail`; the length of a segment has 32 bits. -/
def closeTail (e : XdrEnc) : XdrEnc :=
  match e.tail with
  | none => { e with tailUsed := 0 }
  | some buf => { e with
      out := if 0 < e.tailUsed then appendSeg e.out ⟨buf, 0, e.tailUsed % 2 ^ 32⟩ else e.out
      tail := none
      tailUsed := 0 }

def fitsTail (e : XdrEnc) (n : Nat) : Bool :=
  match e.tail with
  | none => false
  | some buf => e.tailUsed + n ≤ buf.cap

variable (pool : BufferPool)

def allocTail (n : Nat) (e : XdrEnc) : XdrEnc :=
  { e with
    tail := some ⟨pool.address e.allocs e.live, blockCapacity (max n kSmall)⟩
    tailUsed := 0
    allocs := e.allocs + 1 }

def ensure (n : Nat) (e : XdrEnc) : XdrEnc :=
  if e.fitsTail n then e else e.closeTail.allocTail pool n

def checkLimit (limit : Nat) (e : XdrEnc) : XdrEnc := if limit < e.size then { e with overflow := true } else e

/-- The tail with bytes written behind what it holds. -/
def write (s : Bytes) (e : XdrEnc) : XdrEnc :=
  match e.tail with
  | none => e
  | some buf => { e with mem := update e.mem buf.addr (Buffer.fill (e.mem buf.addr) e.tailUsed s) }

/-- The tail is used up to so many bytes more. -/
def advance (n : Nat) (e : XdrEnc) : XdrEnc := { e with tailUsed := e.tailUsed + n, size := e.size + n }

def put (limit : Nat) (s : Bytes) (e : XdrEnc) : XdrEnc :=
  if s = [] then e else (((e.ensure pool s.length).write s).advance s.length).checkLimit limit

def rawGap (limit n : Nat) (e : XdrEnc) : XdrEnc := ((e.ensure pool n).advance n).checkLimit limit

def splice (data : Buf) (off len : Nat) (e : XdrEnc) : XdrEnc :=
  { e.closeTail with out := appendSeg e.closeTail.out ⟨data, off, len⟩, size := e.size + len }

def attach (limit : Nat) (data : Buf) (off len : Nat) (e : XdrEnc) : XdrEnc :=
  ((e.splice data off len).put pool limit (List.replicate (Xdr.pad4 len) 0)).checkLimit limit

def opaqueFixed (limit : Nat) (s : Bytes) (e : XdrEnc) : XdrEnc :=
  (e.put pool limit s).put pool limit (List.replicate (Xdr.pad4 s.length) 0)

def opaqueVar (limit : Nat) (s : Bytes) (e : XdrEnc) : XdrEnc :=
  (e.put pool limit (Xdr.putU32 (UInt32.ofNat s.length))).opaqueFixed pool limit s

def call (limit : Nat) (e : XdrEnc) : EncCall → XdrEnc
  | .u32 v => e.put pool limit (Xdr.putU32 v)
  | .u64 v => e.put pool limit (Xdr.putU64 v)
  | .boolean b => e.put pool limit (Xdr.putBool b)
  | .opaqueFixed s => e.opaqueFixed pool limit s
  | .opaqueVar s => e.opaqueVar pool limit s
  | .string s => e.opaqueVar pool limit s
  | .rawGap n => e.rawGap pool limit n
  | .attach data off len => e.attach pool limit data off len.toNat

def mark (e : XdrEnc) : EncMark := ⟨e.out.length, e.size, e.tailUsed, e.tail.map (·.addr), e.overflow⟩

/-- The segments behind the mark are taken off the chain; the first of them may be the tail of then. -/
def reopened (m : EncMark) (out : List Seg) : Option Buf :=
  match out[m.segs]? with
  | none => none
  | some seg => if m.tailId = some seg.buf.addr ∧ seg.off = 0 then some seg.buf else none

def rollback (m : EncMark) (e : XdrEnc) : XdrEnc :=
  if e.tail.isSome ∧ e.tail.map (·.addr) = m.tailId then
    { e with tailUsed := m.tailUsed, size := m.size, overflow := m.overflow }
  else
    { e with
      out := e.out.take m.segs
      tail := reopened m e.out
      tailUsed := if (reopened m e.out).isSome then m.tailUsed else 0
      size := m.size
      overflow := m.overflow }

/-- The chain that `take` gives away, segment by segment. -/
def taken (e : XdrEnc) : List Bytes := e.closeTail.out.map fun seg => Buffer.slice (e.mem seg.buf.addr) seg.off seg.len

end XdrEnc

/-! ### Sessions -/

/-- What is known of an encoded byte: nothing in a gap, which belongs to whoever asked for it. -/
abbrev Cell := Option UInt8

def EncCall.cells (mem : Nat → Nat → UInt8) : EncCall → List Cell
  | .u32 v => (Xdr.putU32 v).map some
  | .u64 v => (Xdr.putU64 v).map some
  | .boolean b => (Xdr.putBool b).map some
  | .opaqueFixed s => (Xdr.putOpaqueFixed s).map some
  | .opaqueVar s => (Xdr.putOpaque s).map some
  | .string s => (Xdr.putOpaque s).map some
  | .rawGap n => List.replicate n none
  | .attach data off len => (Buffer.slice (mem data.addr) off len.toNat ++ List.replicate (Xdr.pad4 len.toNat) 0).map some

/-- An encoder with the marks that are still valid, the innermost first, and for the record what each call that was
not rolled back has encoded and how many of them there were at each mark. -/
structure EncSession where
  enc : XdrEnc := {}
  marks : List EncMark := []
  kept : List (List Cell) := []
  saved : List Nat := []

/-- A call, a mark, a rollback past some of the inner marks, and a byte that somebody writes to memory: into a gap, or
into a block that the encoder does not have. -/
inductive EncEvent where
  | call (c : EncCall)
  | mark
  | rollback (inner : Nat)
  | poke (addr off : Nat) (b : UInt8)

namespace EncSession

def cells (s : EncSession) : List Cell := s.kept.flatten

def step (pool : BufferPool) (limit : Nat) (s : EncSession) : EncEvent → EncSession
  | .call c => { s with enc := s.enc.call pool limit c, kept := s.kept ++ [c.cells s.enc.mem] }
  | .mark => { s with marks := s.enc.mark :: s.marks, saved := s.kept.length :: s.saved }
  | .rollback inner =>
    match s.marks.drop inner, s.saved.drop inner with
    | m :: marks, n :: saved => { enc := s.enc.rollback m, marks := m :: marks, kept := s.kept.take n, saved := n :: saved }
    | _, _ => s
  | .poke addr off b =>
    { s with enc := { s.enc with mem := update s.enc.mem addr (update (s.enc.mem addr) off b) } }

end EncSession

def encoding (pool : BufferPool) (limit : Nat) : System EncSession EncEvent := ⟨EncSession.step pool limit⟩

/-! ### Shapes -/

/-- Where the encoder's bytes are: the closed segments and the open tail. -/
structure EncShape where
  out : List Seg
  tail : Option Buf
  used : Nat

def XdrEnc.shape (e : XdrEnc) : EncShape := ⟨e.out, e.tail, e.tailUsed⟩

def Seg.places (seg : Seg) : List (Nat × Nat) := (List.range seg.len).map fun i => (seg.buf.addr, seg.off + i)

namespace EncShape

def places (sh : EncShape) : List (Nat × Nat) :=
  sh.out.flatMap Seg.places ++ (sh.tail.map fun buf => Seg.places ⟨buf, 0, sh.used⟩).getD []

/-- A tail holds at least a byte, no more than fits, and no segment lies in its block. -/
structure Wf (sh : EncShape) : Prop where
  none : sh.tail = none → sh.used = 0
  pos : ∀ buf, sh.tail = some buf → 0 < sh.used
  room : ∀ buf, sh.tail = some buf → sh.used ≤ buf.cap ∧ buf.cap < 2 ^ 32
  apart : ∀ buf, sh.tail = some buf → ∀ seg ∈ sh.out, seg.buf.addr ≠ buf.addr

/-- The newer shape was reached from the older one by appending. -/
def Grows (o n : EncShape) : Prop :=
  match o.tail with
  | none => o.out <+: n.out
  | some buf => n.tail = some buf ∧ n.out = o.out ∧ o.used ≤ n.used ∨
      ∃ len rest, n.out = o.out ++ ⟨buf, 0, len⟩ :: rest ∧ o.used ≤ len

theorem Grows.refl (sh : EncShape) : Grows sh sh := by
  unfold Grows
  split
  · exact List.prefix_rfl
  · exact .inl ⟨‹_›, rfl, le_rfl⟩

theorem Grows.out_prefix {o n : EncShape} (h : Grows o n) : o.out <+: n.out := by
  unfold Grows at h
  split at h
  · exact h
  · rcases h with ⟨-, hout, -⟩ | ⟨len, rest, hout, -⟩
    · exact hout ▸ List.prefix_rfl
    · exact hout ▸ List.prefix_append ..

theorem Grows.trans {a b c : EncShape} (hab : Grows a b) (hbc : Grows b c) : Grows a c := by
  have hprefix := hbc.out_prefix
  unfold Grows at hab ⊢
  cases hatail : a.tail with
  | none =>
    rw [hatail] at hab
    exact hab.trans hprefix
  | some buf =>
    rw [hatail] at hab
    rcases hab with ⟨hbtail, hbout, hused⟩ | ⟨len, rest, hbout, hlen⟩
    · unfold Grows at hbc
      rw [hbtail] at hbc
      rcases hbc with ⟨hctail, hcout, hused'⟩ | ⟨len, rest, hcout, hlen⟩
      · exact .inl ⟨hctail, hcout.trans hbout, hused.trans hused'⟩
      · exact .inr ⟨len, rest, by rw [hcout, hbout], hused.trans hlen⟩
    · obtain ⟨more, hmore⟩ := hprefix
      exact .inr ⟨len, rest ++ more, by rw [← hmore, hbout]; simp, hlen⟩

theorem places_prefix {buf : Buf} {n m : Nat} (h : n ≤ m) : Seg.places ⟨buf, 0, n⟩ <+: Seg.places ⟨buf, 0, m⟩ := by
  obtain ⟨k, rfl⟩ := Nat.exists_eq_add_of_le h
  simp only [Seg.places, List.range_add, List.map_append]
  exact List.prefix_append ..

theorem Grows.places_prefix {o n : EncShape} (h : Grows o n) : o.places <+: n.places := by
  unfold Grows at h
  unfold places
  cases htail : o.tail with
  | none =>
    rw [htail] at h
    obtain ⟨more, hmore⟩ := h
    rw [← hmore, List.flatMap_append]
    simp
  | some buf =>
    rw [htail] at h
    rcases h with ⟨hntail, hout, hused⟩ | ⟨len, rest, hout, hlen⟩
    · rw [hntail, hout]
      exact List.prefix_append_right_inj _ |>.2 (EncShape.places_prefix hused)
    · rw [hout, List.flatMap_append, List.flatMap_cons, List.append_assoc, List.append_assoc]
      refine (List.prefix_append_right_inj _).2 ?_
      exact (EncShape.places_prefix hlen).trans (List.prefix_append ..)

end EncShape

/-! ### Rolling back -/

/-- A mark of a shape, at the size that goes with it. -/
structure MarkOf (limit : Nat) (sh : EncShape) (m : EncMark) : Prop where
  segs : m.segs = sh.out.length
  size : m.size = sh.places.length
  tailUsed : m.tailUsed = sh.used
  tailId : m.tailId = sh.tail.map (·.addr)
  overflow : m.overflow = decide (limit < m.size)

variable {e : XdrEnc} {limit : Nat} {s : Bytes}

theorem rollback_shape {o : EncShape} {m : EncMark} (ho : o.Wf) (he : e.shape.Wf)
    (hgrows : EncShape.Grows o e.shape) (hm : MarkOf limit o m) : (e.rollback m).shape = o := by
  obtain ⟨out, tail, used⟩ := o
  obtain ⟨hsegs, hsize, hused, htailId, -⟩ := hm
  unfold EncShape.Grows at hgrows
  unfold XdrEnc.rollback XdrEnc.shape
  cases tail with
  | none =>
    -- No tail at the mark: nothing can be mistaken for it.
    obtain rfl : used = 0 := ho.none rfl
    obtain ⟨more, hmore⟩ := hgrows
    have hout : e.out = out ++ more := hmore.symm
    have hreopened : XdrEnc.reopened m e.out = none := by
      unfold XdrEnc.reopened
      split
      · rfl
      · rw [htailId]
        simp
    have hother : ¬(e.tail.isSome ∧ e.tail.map (·.addr) = m.tailId) := by
      rw [htailId]
      cases e.tail <;> simp
    rw [if_neg hother, hreopened, hsegs, hout, List.take_left]
    simp
  | some buf =>
    rcases hgrows with ⟨hetail, hout, -⟩ | ⟨len, rest, hout, -⟩
    · have hetail : e.tail = some buf := hetail
      have hout : e.out = out := hout
      have hsame : e.tail.isSome ∧ e.tail.map (·.addr) = m.tailId := by simp [hetail, htailId]
      rw [if_pos hsame, hout, hetail, hused]
    · have hout : e.out = out ++ ⟨buf, 0, len⟩ :: rest := hout
      -- The tail of the mark is in the chain, so the open one has another address.
      have hother : ¬(e.tail.isSome ∧ e.tail.map (·.addr) = m.tailId) := by
        rintro ⟨hsome, haddr⟩
        obtain ⟨open_, hopen⟩ := Option.isSome_iff_exists.1 hsome
        have hapart := he.apart open_ hopen ⟨buf, 0, len⟩ (by simp [XdrEnc.shape, hout])
        rw [hopen, htailId] at haddr
        exact hapart (Option.some.inj haddr).symm
      have hreopened : XdrEnc.reopened m e.out = some buf := by
        have hat : e.out[m.segs]? = some ⟨buf, 0, len⟩ := by simp [hout, hsegs]
        simp [XdrEnc.reopened, hat, htailId]
      rw [if_neg hother, hreopened, hsegs, hout, List.take_left]
      simp [hused]

/-! ### Appending -/

namespace XdrEnc

def content (e : XdrEnc) : Bytes := e.shape.places.map fun place => e.mem place.1 place.2

variable {e e' : XdrEnc} {limit n : Nat} {s : Bytes}

theorem places_closeTail (he : e.shape.Wf) :
    e.closeTail.shape.places = e.shape.places ∧ EncShape.Grows e.shape e.closeTail.shape := by
  cases htail : e.tail with
  | none =>
    have hsame : e.closeTail.shape = e.shape := by
      simp only [closeTail, shape, htail]
      rw [← show e.tailUsed = 0 from he.none htail]
    rw [hsame]
    exact ⟨rfl, .refl _⟩
  | some buf =>
    have hpos : 0 < e.tailUsed := he.pos buf htail
    have hroom : e.tailUsed ≤ buf.cap ∧ buf.cap < 2 ^ 32 := he.room buf htail
    have hlen : e.tailUsed % 2 ^ 32 = e.tailUsed := Nat.mod_eq_of_lt (by omega)
    have hclosed : e.closeTail.shape = ⟨e.out ++ [⟨buf, 0, e.tailUsed⟩], none, 0⟩ := by
      simp only [closeTail, shape, htail, if_pos hpos, hlen, appendSeg]
      rw [if_neg (by omega)]
    rw [hclosed]
    refine ⟨by simp [EncShape.places, shape, htail], ?_⟩
    unfold EncShape.Grows shape
    simp only [htail]
    exact .inr ⟨e.tailUsed, [], rfl, le_rfl⟩

@[simp] theorem closeTail_tail (e : XdrEnc) : e.closeTail.tail = none := by
  unfold closeTail
  split
  · assumption
  · rfl

@[simp] theorem closeTail_used (e : XdrEnc) : e.closeTail.tailUsed = 0 := by
  unfold closeTail
  split <;> rfl

@[simp] theorem closeTail_mem (e : XdrEnc) : e.closeTail.mem = e.mem := by
  unfold closeTail
  split <;> rfl

@[simp] theorem closeTail_size (e : XdrEnc) : e.closeTail.size = e.size := by
  unfold closeTail
  split <;> rfl

@[simp] theorem closeTail_overflow (e : XdrEnc) : e.closeTail.overflow = e.overflow := by
  unfold closeTail
  split <;> rfl

theorem le_blockCapacity (hn : n < 2 ^ 32) : n ≤ blockCapacity n ∧ blockCapacity n < 2 ^ 32 := by
  unfold blockCapacity
  cases hclass : kClassCaps.find? (n ≤ ·) with
  | none =>
    rw [Option.getD_none, Nat.mod_eq_of_lt hn]
    exact ⟨le_rfl, hn⟩
  | some cap =>
    have hle : n ≤ cap := by simpa using List.find?_some hclass
    have hsmall : ∀ cap ∈ kClassCaps, cap < 2 ^ 32 := by decide
    exact ⟨hle, hsmall cap (List.mem_of_find?_eq_some hclass)⟩

/-- The encoder with a tail that has room for so many bytes, and otherwise as before. -/
structure Ready (e e' : XdrEnc) (n : Nat) (buf : Buf) : Prop where
  tail : e'.tail = some buf
  room : e'.tailUsed + n ≤ buf.cap ∧ buf.cap < 2 ^ 32
  apart : ∀ seg ∈ e'.out, seg.buf.addr ≠ buf.addr
  places : e'.shape.places = e.shape.places
  grows : ∀ used, e'.tailUsed ≤ used → EncShape.Grows e.shape ⟨e'.out, e'.tail, used⟩
  mem : e'.mem = e.mem
  size : e'.size = e.size
  overflow : e'.overflow = e.overflow

variable (pool : BufferPool)

theorem ready_ensure (he : e.shape.Wf) (hn : n < 2 ^ 32) :
    ∃ buf, Ready e (e.ensure pool n) n buf := by
  unfold ensure
  by_cases hfits : e.fitsTail n = true
  · rw [if_pos hfits]
    unfold fitsTail at hfits
    split at hfits
    · cases hfits
    · rename_i buf htail
      refine ⟨buf, htail, ⟨by simpa using hfits, (he.room buf htail).2⟩, he.apart buf htail, rfl, fun used hused => ?_,
        rfl, rfl, rfl⟩
      unfold EncShape.Grows shape
      simp only [htail]
      exact .inl ⟨trivial, trivial, hused⟩
  · rw [if_neg hfits]
    obtain ⟨hplaces, hgrows⟩ := places_closeTail he
    have hcap := le_blockCapacity (n := max n kSmall) (by simp [kSmall]; omega)
    refine ⟨⟨pool.address e.closeTail.allocs e.closeTail.live, blockCapacity (max n kSmall)⟩, rfl, ?_, ?_, ?_,
      fun used _ => ?_, e.closeTail_mem, e.closeTail_size, e.closeTail_overflow⟩
    · show 0 + n ≤ blockCapacity (max n kSmall) ∧ blockCapacity (max n kSmall) < 2 ^ 32
      have hle := le_max_left n kSmall
      exact ⟨by omega, hcap.2⟩
    · intro seg hseg heq
      refine pool.unused e.closeTail.allocs e.closeTail.live ?_
      have hlive : seg.buf.addr ∈ e.closeTail.live := List.mem_map_of_mem hseg
      have haddr : seg.buf.addr = pool.address e.closeTail.allocs e.closeTail.live := heq
      rwa [← haddr]
    · rw [← hplaces]
      simp [EncShape.places, shape, allocTail, Seg.places]
    · refine hgrows.trans ?_
      unfold EncShape.Grows shape
      simp only [closeTail_tail]
      exact List.prefix_rfl

/-- The encoder after some bytes more. -/
structure Appended (e e' : XdrEnc) (s : Bytes) : Prop where
  wf : e'.shape.Wf
  grows : EncShape.Grows e.shape e'.shape
  content : e'.content = e.content ++ s
  size : e'.size = e.size + s.length

theorem Appended.refl (he : e.shape.Wf) : Appended e e [] := ⟨he, .refl _, by simp, rfl⟩

theorem Appended.trans {e'' : XdrEnc} {t : Bytes} (h : Appended e e' s) (h' : Appended e' e'' t) :
    Appended e e'' (s ++ t) where
  wf := h'.wf
  grows := h.grows.trans h'.grows
  content := by rw [h'.content, h.content, List.append_assoc]
  size := by rw [h'.size, h.size, List.length_append, Nat.add_assoc]

@[simp] theorem checkLimit_shape (limit : Nat) (e : XdrEnc) : (e.checkLimit limit).shape = e.shape := by
  unfold checkLimit
  split <;> rfl

@[simp] theorem checkLimit_mem (limit : Nat) (e : XdrEnc) : (e.checkLimit limit).mem = e.mem := by
  unfold checkLimit
  split <;> rfl

@[simp] theorem checkLimit_size (limit : Nat) (e : XdrEnc) : (e.checkLimit limit).size = e.size := by
  unfold checkLimit
  split <;> rfl

theorem Appended.checkLimit (h : Appended e e' s) (limit : Nat) :
    Appended e (e'.checkLimit limit) s where
  wf := by simpa using h.wf
  grows := by simpa using h.grows
  content := by
    rw [← h.content]
    simp [XdrEnc.content]
  size := by simpa using h.size

theorem appended_advance {f : XdrEnc} {buf : Buf} (h : Ready e e' n buf) (hn : 0 < n)
    (hshape : f.shape = e'.shape) (hsize : f.size = e'.size)
    (hmem : ∀ place ∈ e'.shape.places, f.mem place.1 place.2 = e'.mem place.1 place.2) :
    Appended e (f.advance n) (Buffer.slice (f.mem buf.addr) e'.tailUsed n) := by
  have hadvanced : (f.advance n).shape = ⟨e'.out, some buf, e'.tailUsed + n⟩ := by
    have hout : f.out = e'.out := congrArg EncShape.out hshape
    have htail : f.tail = some buf := (congrArg EncShape.tail hshape).trans h.tail
    have hused : f.tailUsed = e'.tailUsed := congrArg EncShape.used hshape
    simp [shape, advance, hout, htail, hused]
  refine ⟨?_, ?_, ?_, ?_⟩
  · rw [hadvanced]
    refine ⟨nofun, ?_, ?_, ?_⟩
    · rintro _ -
      show 0 < e'.tailUsed + n
      omega
    · rintro _ ⟨⟩
      exact h.room
    · rintro _ ⟨⟩
      exact h.apart
  · rw [hadvanced, ← h.tail]
    exact h.grows _ (Nat.le_add_right ..)
  · have hplaces : (f.advance n).shape.places = e'.shape.places ++
        (List.range n).map fun i => (buf.addr, e'.tailUsed + i) := by
      rw [hadvanced]
      simp only [EncShape.places, shape, h.tail, Option.map_some, Option.getD_some, Seg.places, List.range_add,
        List.map_append, List.map_map, List.append_assoc, Nat.zero_add]
      rfl
    have hold : e.content = e'.shape.places.map fun place => f.mem place.1 place.2 := by
      rw [content, ← h.places, ← h.mem]
      exact List.map_congr_left fun place hplace => (hmem place hplace).symm
    rw [content, hplaces, List.map_append, hold]
    simp [Buffer.slice, advance]
  · simp [advance, hsize, h.size]

theorem appended_put (limit : Nat) (he : e.shape.Wf)
    (hs : s.length < 2 ^ 32) : Appended e (e.put pool limit s) s := by
  unfold put
  split
  case isTrue hnil =>
    rw [hnil]
    exact .refl he
  case isFalse hne =>
    obtain ⟨buf, hready⟩ := ready_ensure pool he hs
    generalize e.ensure pool s.length = e' at hready ⊢
    have hwrite : e'.write s = { e' with
        mem := update e'.mem buf.addr (Buffer.fill (e'.mem buf.addr) e'.tailUsed s) } := by
      simp [write, hready.tail]
    -- The places before are in other blocks, or below what is written.
    have hkept : ∀ place ∈ e'.shape.places, (e'.write s).mem place.1 place.2 = e'.mem place.1 place.2 := by
      intro place hplace
      simp only [EncShape.places, shape, hready.tail, Option.map_some, Option.getD_some, List.mem_append,
        List.mem_flatMap, Seg.places, List.mem_map, List.mem_range, Nat.zero_add] at hplace
      rw [hwrite]
      rcases hplace with ⟨seg, hseg, i, -, rfl⟩ | ⟨i, hi, rfl⟩
      · have hother := hready.apart seg hseg
        simp [update_of_ne hother]
      · have hbelow : ¬e'.tailUsed ≤ i := by omega
        simp [Buffer.fill, hbelow]
    have hslice : Buffer.slice ((e'.write s).mem buf.addr) e'.tailUsed s.length = s := by
      rw [hwrite]
      simp [Buffer.slice_fill_self]
    have happended := appended_advance hready (List.length_pos_of_ne_nil hne) (f := e'.write s)
      (by rw [hwrite]; rfl) (by rw [hwrite]) hkept
    rw [hslice] at happended
    exact happended.checkLimit limit

theorem appended_rawGap (limit : Nat) (he : e.shape.Wf) (hpos : 0 < n)
    (hn : n < 2 ^ 32) : ∃ s : Bytes, s.length = n ∧ Appended e (e.rawGap pool limit n) s := by
  obtain ⟨buf, hready⟩ := ready_ensure pool he hn
  exact ⟨_, by simp, (appended_advance hready hpos rfl rfl fun _ _ => rfl).checkLimit limit⟩

theorem appended_splice (he : e.shape.Wf) (data : Buf) (off len : Nat) :
    Appended e (e.splice data off len) (Buffer.slice (e.mem data.addr) off len) := by
  obtain ⟨hplaces, hgrows⟩ := places_closeTail he
  have hshape : (e.splice data off len).shape = ⟨appendSeg e.closeTail.out ⟨data, off, len⟩, none, 0⟩ := by
    simp [shape, splice]
  have hout : (appendSeg e.closeTail.out ⟨data, off, len⟩).flatMap Seg.places =
      e.closeTail.out.flatMap Seg.places ++ Seg.places ⟨data, off, len⟩ := by
    unfold appendSeg
    split
    case isTrue hzero =>
      have hzero : len = 0 := hzero
      simp [Seg.places, hzero]
    case isFalse => simp
  have hprefix : e.closeTail.out <+: appendSeg e.closeTail.out ⟨data, off, len⟩ := by
    unfold appendSeg
    split
    · exact List.prefix_rfl
    · exact List.prefix_append ..
  refine ⟨?_, hgrows.trans ?_, ?_, ?_⟩
  · rw [hshape]
    exact ⟨fun _ => rfl, nofun, nofun, nofun⟩
  · rw [hshape]
    unfold EncShape.Grows shape
    simpa only [closeTail_tail] using hprefix
  · rw [content, content, ← hplaces, hshape]
    have hclosed : e.closeTail.shape.places = e.closeTail.out.flatMap Seg.places := by
      simp [EncShape.places, shape]
    rw [hclosed]
    simp [EncShape.places, hout, Buffer.slice, Seg.places, splice]
  · simp [splice]

/-- The overflow is told exactly when the size is beyond the limit. -/
def Counted (limit : Nat) (e : XdrEnc) : Prop := e.overflow = decide (limit < e.size)

theorem checkLimit_overflow (limit : Nat) (e : XdrEnc) :
    (e.checkLimit limit).overflow = (e.overflow || decide (limit < e.size)) := by
  unfold checkLimit
  split <;> simp_all

theorem ensure_overflow (n : Nat) (e : XdrEnc) :
    (e.ensure pool n).overflow = e.overflow ∧ (e.ensure pool n).size = e.size := by
  unfold ensure
  split
  · exact ⟨rfl, rfl⟩
  · exact ⟨e.closeTail_overflow, e.closeTail_size⟩

theorem counted_checkLimit {f : XdrEnc} (he : Counted limit e) (hsize : e.size ≤ f.size)
    (hoverflow : f.overflow = e.overflow) : Counted limit (f.checkLimit limit) := by
  unfold Counted at he ⊢
  rw [checkLimit_overflow, checkLimit_size, hoverflow, he]
  by_cases hlimit : limit < f.size
  · simp [hlimit]
  · have hbefore : ¬limit < e.size := by omega
    simp [hlimit, hbefore]

@[simp] theorem write_size (s : Bytes) (e : XdrEnc) : (e.write s).size = e.size := by
  unfold write
  split <;> rfl

@[simp] theorem write_overflow (s : Bytes) (e : XdrEnc) : (e.write s).overflow = e.overflow := by
  unfold write
  split <;> rfl

theorem counted_put (he : Counted limit e) (s : Bytes) :
    Counted limit (e.put pool limit s) := by
  obtain ⟨hoverflow, hsize⟩ := ensure_overflow pool s.length e
  unfold put
  split
  · exact he
  · refine counted_checkLimit he ?_ ?_
    · simp [advance, hsize]
    · simp [advance, hoverflow]

theorem counted_rawGap (he : Counted limit e) (n : Nat) :
    Counted limit (e.rawGap pool limit n) := by
  obtain ⟨hoverflow, hsize⟩ := ensure_overflow pool n e
  refine counted_checkLimit he ?_ ?_
  · simp [advance, hsize]
  · simp [advance, hoverflow]

theorem counted_attach (he : Counted limit e) (data : Buf)
    (off len : Nat) : Counted limit (e.attach pool limit data off len) := by
  have hsplice : (e.splice data off len).overflow = e.overflow ∧ e.size ≤ (e.splice data off len).size := by
    simp [splice]
  unfold attach put
  split
  · exact counted_checkLimit he hsplice.2 hsplice.1
  · obtain ⟨hoverflow, hsize⟩ :=
      ensure_overflow pool (List.replicate (Xdr.pad4 len) (0 : UInt8)).length (e.splice data off len)
    have hpadded := counted_checkLimit he
      (f := (((e.splice data off len).ensure pool (List.replicate (Xdr.pad4 len) (0 : UInt8)).length).write
        (List.replicate (Xdr.pad4 len) 0)).advance (List.replicate (Xdr.pad4 len) (0 : UInt8)).length)
      (by simp only [advance, write_size, hsize]; omega)
      (by simp only [advance, write_overflow, hoverflow, hsplice.1])
    unfold Counted at hpadded ⊢
    rw [checkLimit_overflow, checkLimit_size, hpadded]
    simp

theorem counted_call (he : Counted limit e) (c : EncCall) :
    Counted limit (e.call pool limit c) := by
  cases c with
  | rawGap n => exact counted_rawGap pool he n
  | attach data off len => exact counted_attach pool he data off len.toNat
  | opaqueFixed s => exact counted_put pool (counted_put pool he _) _
  | opaqueVar s => exact counted_put pool (counted_put pool (counted_put pool he _) _) _
  | string s => exact counted_put pool (counted_put pool (counted_put pool he _) _) _
  | _ => exact counted_put pool he _

end XdrEnc

/-! ### Calls -/

def Cell.Fits (c : Cell) (b : UInt8) : Prop := ∀ known, c = some known → b = known

theorem fits_some (s : Bytes) : List.Forall₂ Cell.Fits (s.map some) s := by
  induction s with
  | nil => exact .nil
  | cons b s ih => exact .cons (fun known hknown => Option.some.inj hknown) ih

theorem fits_none {n : Nat} (h : s.length = n) : List.Forall₂ Cell.Fits (List.replicate n none) s := by
  subst h
  induction s with
  | nil => exact .nil
  | cons b s ih => exact .cons nofun ih

/-- The sizes that XDR and the segments can tell: 32 bits, and a gap that is one. -/
def EncCall.Sized : EncCall → Prop
  | .opaqueFixed s | .opaqueVar s | .string s => s.length < 2 ^ 32
  | .rawGap n => 0 < n ∧ n < 2 ^ 32
  | _ => True

theorem pad4_lt (n : Nat) : Xdr.pad4 n < 4 := Nat.mod_lt _ (by decide)

theorem appended_opaqueFixed (pool : BufferPool) (limit : Nat) (he : e.shape.Wf)
    (hs : s.length < 2 ^ 32) : XdrEnc.Appended e (e.opaqueFixed pool limit s) (Xdr.putOpaqueFixed s) := by
  have hbody := XdrEnc.appended_put pool limit he hs
  have hpad := pad4_lt s.length
  exact hbody.trans (XdrEnc.appended_put pool limit hbody.wf (by simp; omega))

theorem appended_opaqueVar (pool : BufferPool) (limit : Nat) (he : e.shape.Wf)
    (hs : s.length < 2 ^ 32) : XdrEnc.Appended e (e.opaqueVar pool limit s) (Xdr.putOpaque s) := by
  have hlen := XdrEnc.appended_put pool limit he (s := Xdr.putU32 (UInt32.ofNat s.length)) (by simp)
  exact hlen.trans (appended_opaqueFixed pool limit hlen.wf hs)

theorem appended_call (pool : BufferPool) (limit : Nat) (he : e.shape.Wf) {c : EncCall} (hc : c.Sized) :
    ∃ s, XdrEnc.Appended e (e.call pool limit c) s ∧ List.Forall₂ Cell.Fits (c.cells e.mem) s := by
  cases c with
  | u32 v => exact ⟨_, XdrEnc.appended_put pool limit he (by simp), fits_some _⟩
  | u64 v => exact ⟨_, XdrEnc.appended_put pool limit he (by simp), fits_some _⟩
  | boolean b => exact ⟨_, XdrEnc.appended_put pool limit he (by simp), fits_some _⟩
  | opaqueFixed s => exact ⟨_, appended_opaqueFixed pool limit he hc, fits_some _⟩
  | opaqueVar s => exact ⟨_, appended_opaqueVar pool limit he hc, fits_some _⟩
  | string s => exact ⟨_, appended_opaqueVar pool limit he hc, fits_some _⟩
  | rawGap n =>
    obtain ⟨s, hlen, happended⟩ := XdrEnc.appended_rawGap pool limit he hc.1 hc.2
    exact ⟨s, happended, fits_none hlen⟩
  | attach data off len =>
    have hsplice := XdrEnc.appended_splice he data off len.toNat
    have hpad := pad4_lt len.toNat
    have hput := XdrEnc.appended_put pool limit hsplice.wf (s := List.replicate (Xdr.pad4 len.toNat) 0)
      (by simp; omega)
    exact ⟨_, (hsplice.trans hput).checkLimit limit, fits_some _⟩

/-! ### Runs -/

/-- The marks that are valid, each with the calls that were there when it was taken: the innermost is a mark of a shape
that has only grown since, and the outer ones are marks from before that. -/
inductive MarkStack (limit : Nat) : EncShape → List (List Cell) → List EncMark → List Nat → Prop
  | nil (sh : EncShape) (kept : List (List Cell)) : MarkStack limit sh kept [] []
  | cons {sh o : EncShape} {kept : List (List Cell)} {m : EncMark} {n : Nat} {marks : List EncMark} {saved : List Nat}
      (wf : o.Wf) (grows : EncShape.Grows o sh) (mark : MarkOf limit o m) (bound : n ≤ kept.length)
      (size : m.size = (kept.take n).flatten.length) (outer : MarkStack limit o (kept.take n) marks saved) :
      MarkStack limit sh kept (m :: marks) (n :: saved)

theorem MarkStack.mono {sh sh' : EncShape} {kept : List (List Cell)} {marks : List EncMark}
    {saved : List Nat} (h : MarkStack limit sh kept marks saved) (hgrows : EncShape.Grows sh sh')
    (more : List (List Cell)) : MarkStack limit sh' (kept ++ more) marks saved := by
  cases h with
  | nil => exact .nil ..
  | cons wf grows mark bound size outer =>
    refine .cons wf (grows.trans hgrows) mark (by simp; omega) ?_ ?_ <;> rwa [List.take_append_of_le_length bound]

theorem MarkStack.drop {sh : EncShape} {kept : List (List Cell)} {marks : List EncMark}
    {saved : List Nat} (h : MarkStack limit sh kept marks saved) (inner : Nat) :
    MarkStack limit sh kept (marks.drop inner) (saved.drop inner) := by
  induction inner generalizing marks saved with
  | zero => exact h
  | succ inner ih =>
    cases h with
    | nil => simpa using MarkStack.nil sh kept
    | @cons _ _ _ _ n _ _ wf grows mark bound size outer =>
      simp only [List.drop_succ_cons]
      have hmono := outer.mono grows (kept.drop n)
      rw [List.take_append_drop] at hmono
      exact ih hmono

/-- The encoder holds what the calls that were not rolled back encode. -/
structure EncSession.Sound (limit : Nat) (s : EncSession) : Prop where
  wf : s.enc.shape.Wf
  fits : List.Forall₂ Cell.Fits s.cells s.enc.content
  size : s.enc.size = s.cells.length
  counted : s.enc.Counted limit
  stack : MarkStack limit s.enc.shape s.kept s.marks s.saved

/-- What a session may do: calls of sizes that XDR can tell, and memory that is not the encoder's own or lies in a
gap. -/
def EncSession.Allowed (s : EncSession) : EncEvent → Prop
  | .call c => c.Sized
  | .poke addr off _ => ∀ i : Nat, s.enc.shape.places[i]? = some (addr, off) → s.cells[i]? = some (none : Cell)
  | _ => True

namespace EncSession.Sound

variable {limit : Nat} {s : EncSession}

theorem length_content (h : Sound limit s) : s.enc.shape.places.length = s.cells.length := by
  rw [h.fits.length_eq, XdrEnc.content, List.length_map]

theorem call (h : Sound limit s) (pool : BufferPool) {c : EncCall} (hc : c.Sized) :
    Sound limit (s.step pool limit (.call c)) := by
  obtain ⟨bytes, happended, hfits⟩ := appended_call pool limit h.wf hc
  have hcells : EncSession.cells (s.step pool limit (.call c)) = s.cells ++ c.cells s.enc.mem := by
    simp [EncSession.cells, EncSession.step]
  refine ⟨happended.wf, ?_, ?_, XdrEnc.counted_call pool h.counted c, h.stack.mono happended.grows _⟩
  · rw [hcells]
    show List.Forall₂ Cell.Fits _ (s.enc.call pool limit c).content
    rw [happended.content]
    exact List.rel_append h.fits hfits
  · rw [hcells]
    show (s.enc.call pool limit c).size = _
    rw [happended.size, h.size, List.length_append, hfits.length_eq]

theorem mark (h : Sound limit s) (pool : BufferPool) : Sound limit (s.step pool limit .mark) where
  wf := h.wf
  fits := h.fits
  size := h.size
  counted := h.counted
  stack := by
    have hmark : MarkOf limit s.enc.shape s.enc.mark :=
      ⟨rfl, h.size.trans h.length_content.symm, rfl, rfl, h.counted⟩
    have htake : s.kept.take s.kept.length = s.kept := List.take_length
    simp only [EncSession.step]
    exact .cons h.wf (.refl _) hmark le_rfl (htake.symm ▸ h.size) (htake.symm ▸ h.stack)

theorem rollback (h : Sound limit s) (pool : BufferPool) (inner : Nat) :
    Sound limit (s.step pool limit (.rollback inner)) := by
  have hdrop := h.stack.drop inner
  simp only [EncSession.step]
  split
  case h_2 => exact h
  case h_1 m marks n saved hmarks hsaved =>
    rw [hmarks, hsaved] at hdrop
    cases hdrop with
    | @cons _ o _ _ _ _ _ wf grows mark bound size outer =>
      have hshape := rollback_shape wf h.wf grows mark
      have hmem : (s.enc.rollback m).mem = s.enc.mem := by
        unfold XdrEnc.rollback
        split <;> rfl
      have hsize : (s.enc.rollback m).size = m.size := by
        unfold XdrEnc.rollback
        split <;> rfl
      have hoverflow : (s.enc.rollback m).overflow = m.overflow := by
        unfold XdrEnc.rollback
        split <;> rfl
      -- What is left is the beginning of what was there, in places and in calls.
      have hcells : (s.kept.take n).flatten = s.cells.take m.size := by
        have hsplit : s.cells = (s.kept.take n).flatten ++ (s.kept.drop n).flatten := by
          rw [← List.flatten_append, List.take_append_drop, EncSession.cells]
        rw [hsplit, size, List.take_left]
      have hcontent : (s.enc.rollback m).content = s.enc.content.take m.size := by
        obtain ⟨more, hmore⟩ := grows.places_prefix
        rw [XdrEnc.content, XdrEnc.content, hshape, hmem, ← hmore, List.map_append, mark.size, List.take_left']
        simp
      refine ⟨hshape ▸ wf, ?_, ?_, ?_, ?_⟩
      · show List.Forall₂ Cell.Fits (s.kept.take n).flatten (s.enc.rollback m).content
        rw [hcells, hcontent]
        exact List.forall₂_take _ h.fits
      · show (s.enc.rollback m).size = (s.kept.take n).flatten.length
        rw [hsize, size]
      · show (s.enc.rollback m).overflow = decide (limit < (s.enc.rollback m).size)
        rw [hoverflow, hsize, mark.overflow]
      · have htake : (s.kept.take n).take n = s.kept.take n := by rw [List.take_take, Nat.min_self]
        have hbound : n ≤ (s.kept.take n).length := by
          rw [List.length_take]
          omega
        exact .cons wf (hshape ▸ .refl o) mark hbound (htake.symm ▸ size) (htake.symm ▸ outer)

theorem update_other {mem : Nat → Nat → UInt8} {addr off : Nat} {b : UInt8} {place : Nat × Nat}
    (h : place ≠ (addr, off)) :
    update mem addr (update (mem addr) off b) place.1 place.2 = mem place.1 place.2 := by
  obtain ⟨a, j⟩ := place
  by_cases haddr : a = addr
  · subst haddr
    have hoff : j ≠ off := fun heq => h (by rw [heq])
    simp [update_of_ne hoff]
  · simp [update_of_ne haddr]

theorem poke (h : Sound limit s) (pool : BufferPool) {addr off : Nat} {b : UInt8}
    (hapart : s.Allowed (.poke addr off b)) : Sound limit (s.step pool limit (.poke addr off b)) where
  wf := h.wf
  fits := by
    have hfits := List.forall₂_map_right_iff.1 h.fits
    refine List.forall₂_map_right_iff.2 (List.forall₂_iff_get.2 ⟨hfits.length_eq, fun i hi hi' => ?_⟩)
    have hbefore := (List.forall₂_iff_get.1 hfits).2 i hi hi'
    by_cases hplace : s.enc.shape.places[i]? = some (addr, off)
    · -- The byte lies in a gap, of which nothing is known.
      have hgap := hapart i hplace
      intro known hknown
      have hcell : s.cells[i]? = some (some known) := (List.getElem?_eq_getElem hi).trans (congrArg some hknown)
      rw [hgap] at hcell
      cases hcell
    · have hother : s.enc.shape.places.get ⟨i, hi'⟩ ≠ (addr, off) := by
        intro heq
        exact hplace ((List.getElem?_eq_getElem hi').trans (congrArg some heq))
      exact fun known hknown => (update_other hother).trans (hbefore known hknown)
  size := h.size
  counted := h.counted
  stack := h.stack

theorem step (h : Sound limit s) (pool : BufferPool) {event : EncEvent} (hevent : s.Allowed event) :
    Sound limit (s.step pool limit event) := by
  cases event with
  | call c => exact h.call pool hevent
  | mark => exact h.mark pool
  | rollback inner => exact h.rollback pool inner
  | poke addr off b => exact h.poke pool hevent

theorem start (limit : Nat) : Sound limit {} :=
  ⟨⟨fun _ => rfl, nofun, nofun, nofun⟩, .nil, rfl, by simp [XdrEnc.Counted], .nil ..⟩

end EncSession.Sound

theorem taken_flatten (he : e.shape.Wf) : e.taken.flatten = e.content := by
  rw [XdrEnc.content, ← (XdrEnc.places_closeTail he).1]
  simp only [XdrEnc.taken, EncShape.places, XdrEnc.shape, XdrEnc.closeTail_tail, Option.map_none, Option.getD_none,
    List.append_nil, List.flatMap_def, List.map_flatten, List.map_map]
  congr 1
  refine List.map_congr_left fun seg _ => ?_
  simp [Buffer.slice, Seg.places]

/-- However calls, marks and rollbacks follow one another, and whichever free blocks the pool hands out again, the
bytes that are taken are those of the calls that were not rolled back, gaps at their places; the size is their number;
and the overflow is told exactly when some point that was not rolled back was beyond the limit. -/
theorem rollback_exact (pool : BufferPool) (limit : Nat) {events : List EncEvent}
    (hallowed : (encoding pool limit).Meets EncSession.Allowed {} events) (s : EncSession)
    (hs : s = (encoding pool limit).run {} events) :
    List.Forall₂ Cell.Fits s.cells s.enc.taken.flatten ∧ s.enc.size = s.cells.length ∧
      (s.enc.overflow = true ↔ ∃ k ≤ s.kept.length, limit < (s.kept.take k).flatten.length) := by
  have hsound : EncSession.Sound limit s :=
    hs ▸ System.run_keeps (fun _ _ h hguard => h.step pool hguard) (EncSession.Sound.start limit) hallowed
  refine ⟨taken_flatten hsound.wf ▸ hsound.fits, hsound.size, ?_⟩
  rw [hsound.counted, hsound.size, decide_eq_true_iff]
  constructor
  · intro hover
    exact ⟨s.kept.length, le_rfl, by rwa [List.take_length]⟩
  · rintro ⟨k, -, hover⟩
    have hsplit : s.cells = (s.kept.take k).flatten ++ (s.kept.drop k).flatten := by
      rw [← List.flatten_append, List.take_append_drop, EncSession.cells]
    rw [hsplit, List.length_append]
    omega

/-- A pool that hands out address 0 whenever it is free. -/
def eagerPool : BufferPool where
  address _ live := if 0 ∈ live then live.sum + 1 else 0
  unused _ live := by
    split
    · intro hmem
      have hle := List.single_le_sum (fun _ _ => Nat.zero_le _) _ hmem
      omega
    · assumption

/-- A word is kept; a spliced buffer and a word behind it are rolled back, so that the first block is open again and
the block of the second word is free for the third one. -/
theorem rollback_exact_reopened :
    let events := [.call (.u32 1), .mark, .call (.attach ⟨7, 64⟩ 0 8), .call (.u32 2), .rollback 0,
      .call (.attach ⟨7, 64⟩ 8 4), .call (.u32 3)]
    let s := (encoding eagerPool 100).run {} events
    s.kept.length = 3 ∧ s.enc.size = 12 ∧ List.Forall₂ Cell.Fits s.cells s.enc.taken.flatten := by
  intro events s
  have hallowed : (encoding eagerPool 100).Meets EncSession.Allowed {} events :=
    ⟨trivial, trivial, trivial, trivial, trivial, trivial, trivial, trivial⟩
  obtain ⟨hfits, hsize, -⟩ := rollback_exact eagerPool 100 hallowed s rfl
  exact ⟨rfl, hsize.trans rfl, hfits⟩

/-- A gap of 4 GiB is counted, and nothing of it is in the chain. -/
theorem gap_lost :
    let s := (encoding eagerPool 0).run {} [.call (.rawGap (2 ^ 32))]
    s.enc.size = 2 ^ 32 ∧ s.enc.taken = [] := by
  decide +kernel

end LightNfs
