import LightNfs.Basic
import LightNfs.Lib.Table
import Mathlib

/-!
# The gateway byte-range lock table

The model of `lock_mgr.cpp`. A file's locks are one list of half-open segments; `end` is a keyword,
so a segment's end is `stop`. The value `2^64 - 1` in `stop` doubles as "to end of file", exactly as
in the source. `std::sort` promises no order among equal starts; insertion sort is one of the orders
it may produce.
-/

namespace LightNfs

/-- `backend::LockOwnerId`: a fixed buffer of which the first `len` bytes count. -/
structure LockOwnerId where
  bytes : Bytes
  len : Nat
  length_bytes : bytes.length = 24
  len_le : len ≤ 24
deriving DecidableEq

namespace LockOwnerId

theorem length_zeros : (List.replicate 24 (0 : UInt8)).length = 24 := List.length_replicate

theorem zero_le : 0 ≤ 24 := Nat.zero_le 24

def view (owner : LockOwnerId) : Bytes := owner.bytes.take owner.len

end LockOwnerId

/-- `same_owner`: equal lengths and equal counted bytes. -/
def sameOwner (a b : LockOwnerId) : Bool :=
  a.len == b.len && a.bytes.take a.len == b.bytes.take a.len

theorem sameOwner_iff {a b : LockOwnerId} : sameOwner a b = true ↔ a.view = b.view := by
  simp only [sameOwner, Bool.and_eq_true, beq_iff_eq, LockOwnerId.view]
  constructor
  · rintro ⟨hlen, hbytes⟩
    rw [hbytes, hlen]
  · intro hview
    have hlen := congrArg List.length hview
    rw [List.length_take, List.length_take, a.length_bytes, b.length_bytes, Nat.min_eq_left a.len_le,
      Nat.min_eq_left b.len_le] at hlen
    exact ⟨hlen, by rw [hview, hlen]⟩

/-- `StateMgr::make_lowner`: client id, hash and length of the owner string, 20 bytes that count. -/
def makeLowner (clientid : UInt64) (owner : Bytes) : LockOwnerId where
  bytes := leBytes 8 clientid.toNat ++ leBytes 8 (fnv64 owner).toNat ++ leBytes 4 owner.length ++ List.replicate 4 0
  len := 20
  length_bytes := by simp
  len_le := by decide

/-- `backend::LockRange`; a length of `2^64 - 1` means to the end of the file. -/
structure LockRange where
  offset : UInt64
  length : UInt64
deriving DecidableEq

structure LockSeg where
  owner : LockOwnerId
  start : UInt64
  stop : UInt64
  exclusive : Bool
deriving DecidableEq

structure LockConflict where
  owner : LockOwnerId
  range : LockRange
  exclusive : Bool
deriving DecidableEq

def rangeEnd (r : LockRange) : UInt64 :=
  if r.length = uint64Max ∨ r.offset > uint64Max - r.length then uint64Max else r.offset + r.length

def toRange (start stop : UInt64) : LockRange :=
  ⟨start, if stop = uint64Max then uint64Max else stop - start⟩

namespace LockSeg

def overlaps (s : LockSeg) (start stop : UInt64) : Bool := s.start < stop && start < s.stop

def conflictOf (s : LockSeg) : LockConflict := ⟨s.owner, toRange s.start s.stop, s.exclusive⟩

/-- The fusion test of `coalesce`: one owner, one mode, overlapping or adjacent. -/
def fusible (t s : LockSeg) : Bool :=
  sameOwner t.owner s.owner && t.exclusive == s.exclusive && t.stop ≥ s.start && s.stop ≥ t.start

/-- What `coalesce` leaves of two fused segments, in the place of the earlier one. -/
def fuse (t s : LockSeg) : LockSeg :=
  { t with
    start := if s.start < t.start then s.start else t.start
    stop := if t.stop < s.stop then s.stop else t.stop }

end LockSeg

/-- `GatewayLockMgr::carve`: removes the owner's coverage of `[start, stop)`, splitting as needed. -/
def carve (segs : List LockSeg) (owner : LockOwnerId) (start stop : UInt64) : List LockSeg :=
  segs.flatMap fun s =>
    if !sameOwner s.owner owner || !s.overlaps start stop then [s]
    else (if s.start < start then [{ s with stop := start }] else []) ++
      (if s.stop > stop then [{ s with start := stop }] else [])

def sortByStart (segs : List LockSeg) : List LockSeg :=
  segs.insertionSort fun a b => a.start ≤ b.start

/-- The inner loop of `coalesce` over the output so far, latest segment first. -/
def fuseInto (s : LockSeg) : List LockSeg → Option (List LockSeg)
  | [] => none
  | t :: rest => if t.fusible s then some (t.fuse s :: rest) else (fuseInto s rest).map (t :: ·)

/-- One round of the outer loop of `coalesce`, on the reversed output. -/
def coalesceStep (out : List LockSeg) (s : LockSeg) : List LockSeg := (fuseInto s out).getD (s :: out)

def coalesce (segs : List LockSeg) : List LockSeg :=
  sortByStart ((sortByStart segs).foldl coalesceStep []).reverse

/-- `GatewayLockMgr`: the segment lists of all shards with the two gauges. -/
structure GatewayLockMgr where
  files : Table FileKey (List LockSeg)
  total : Nat
  filesLocked : Nat

namespace GatewayLockMgr

def empty : GatewayLockMgr := ⟨∅, 0, 0⟩

variable (m : GatewayLockMgr)

def segments (file : FileKey) : List LockSeg := (m.files.find file).getD []

/-- `s.files.try_emplace(file)` with the gauge that follows it. -/
def tryEmplace (file : FileKey) : GatewayLockMgr :=
  match m.files.find file with
  | some _ => m
  | none => { m with files := m.files.put file [], filesLocked := m.filesLocked + 1 }

/-- `s.files.erase(file)` with the gauge that follows it. -/
def eraseFile (file : FileKey) : GatewayLockMgr :=
  { m with files := m.files.remove file, filesLocked := m.filesLocked - 1 }

/-- `GatewayLockMgr::account`, after `segs` has been stored back in place. -/
def account (file : FileKey) (segs : List LockSeg) (before : Nat) : GatewayLockMgr :=
  let after := segs.length
  let m := { m with
    files := m.files.put file segs
    total := if after > before then m.total + (after - before)
      else if before > after then m.total - (before - after) else m.total }
  if after = 0 then m.eraseFile file else m

/-- The test of the conflict loops of `lock` and `test`; `none` is the null owner of `test`. -/
def conflicting (owner : Option LockOwnerId) (start stop : UInt64) (exclusive : Bool) (seg : LockSeg) : Bool :=
  !(owner.any (sameOwner seg.owner) || !seg.overlaps start stop) && (exclusive || seg.exclusive)

/-- `GatewayLockMgr::lock`: grants, or reports the first conflicting segment. -/
def lock (file : FileKey) (owner : LockOwnerId) (range : LockRange) (exclusive : Bool) :
    GatewayLockMgr × Option LockConflict :=
  let start := range.offset
  let stop := rangeEnd range
  let m := m.tryEmplace file
  let segs := m.segments file
  match segs.find? (conflicting (some owner) start stop exclusive) with
  | some seg => (if segs.isEmpty then m.eraseFile file else m, some seg.conflictOf)
  | none =>
    let segs' := coalesce (carve segs owner start stop ++ [⟨owner, start, stop, exclusive⟩])
    (m.account file segs' segs.length, none)

def unlock (file : FileKey) (owner : LockOwnerId) (range : LockRange) : GatewayLockMgr :=
  match m.files.find file with
  | none => m
  | some segs => m.account file (carve segs owner range.offset (rangeEnd range)) segs.length

/-- `GatewayLockMgr::test`; a null owner conflicts with everybody. -/
def test (file : FileKey) (owner : Option LockOwnerId) (range : LockRange) (exclusive : Bool) :
    Option LockConflict :=
  match m.files.find file with
  | none => none
  | some segs => (segs.find? (conflicting owner range.offset (rangeEnd range) exclusive)).map LockSeg.conflictOf

/-- `GatewayLockMgr::release_owner`, with the number of segments it removed. -/
def releaseOwner (file : FileKey) (owner : LockOwnerId) : GatewayLockMgr × Nat :=
  match m.files.find file with
  | none => (m, 0)
  | some segs =>
    let kept := segs.filter fun seg => !sameOwner seg.owner owner
    (m.account file kept segs.length, segs.length - kept.length)

def countOwner (file : FileKey) (owner : LockOwnerId) : Nat :=
  (m.segments file).countP fun seg => sameOwner seg.owner owner

end GatewayLockMgr

end LightNfs
