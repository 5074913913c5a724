import Mathlib

/-!
# Bytes, hashes and file keys

The values every subsystem passes around: byte strings, the FNV-1a hash `fnv64` of
`state_mgr.cpp`, little-endian words as `memcpy` lays them out, and the key of a file, an export id
together with the backend's object id.
-/

namespace LightNfs

/-- A `std::string` or `std::vector<std::byte>`. -/
abbrev Bytes := List UInt8

abbrev uint64Max : UInt64 := 0xFFFFFFFFFFFFFFFF

/-- The low `n` bytes of a word, least significant first. -/
def leBytes : Nat → Nat → Bytes
  | 0, _ => []
  | n + 1, x => UInt8.ofNat x :: leBytes n (x / 256)

@[simp] theorem length_leBytes (n x : Nat) : (leBytes n x).length = n := by
  induction n generalizing x with
  | zero => rfl
  | succ n ih => simp [leBytes, ih]

theorem leBytes_injective {n x y : Nat} (hx : x < 256 ^ n) (hy : y < 256 ^ n)
    (h : leBytes n x = leBytes n y) : x = y := by
  induction n generalizing x y with
  | zero => simp at hx hy; omega
  | succ n ih =>
    simp only [leBytes, List.cons.injEq] at h
    have hlow : x % 256 = y % 256 := by
      have := congrArg UInt8.toNat h.1
      simpa using this
    have hhigh : x / 256 = y / 256 := by
      apply ih _ _ h.2
      · rw [Nat.pow_succ] at hx
        exact Nat.div_lt_of_lt_mul (by omega)
      · rw [Nat.pow_succ] at hy
        exact Nat.div_lt_of_lt_mul (by omega)
    omega

/-- `fnv64`: the 64-bit FNV-1a hash, with the offset basis the source uses. -/
def fnv64 (bytes : Bytes) : UInt64 :=
  bytes.foldl (fun h c => (h ^^^ c.toUInt64) * 1099511628211) 1469598103934665603

/-- `Errno`: the POSIX numbers by their names, and the sentinels outside that range. -/
inductive Errno where
  | eof
  | badmsg
  | msgsize
  | perm
  | acces
  | badVerf
  | noent
  | io
  | nxio
  | exist
  | xdev
  | nodev
  | notdir
  | isdir
  | inval
  | fbig
  | nospc
  | rofs
  | mlink
  | nametoolong
  | notempty
  | dquot
  | stale
  | opnotsupp
  | overflow
  | jukebox
  | badHandle
  | moved
  | other (code : Nat)
deriving DecidableEq

/-- `backend::ObjId`: at most 51 bytes that name an object within its export. -/
abbrev ObjId := {bytes : Bytes // bytes.length ≤ 51}

structure FileKey where
  fsid : UInt32
  oid : ObjId
deriving DecidableEq

end LightNfs
