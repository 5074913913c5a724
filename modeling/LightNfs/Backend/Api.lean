import LightNfs.Basic

/-!
# The types of the storage boundary

The attributes, limits and capabilities of `backend/api.hpp`.
-/

namespace LightNfs

inductive FType where
  | reg | dir | blk | chr | lnk | sock | fifo
deriving DecidableEq, Repr

/-- The value on the wire, the same in both protocols. -/
def FType.code : FType → UInt32
  | reg => 1
  | dir => 2
  | blk => 3
  | chr => 4
  | lnk => 5
  | sock => 6
  | fifo => 7

structure DevT where
  major : UInt32 := 0
  minor : UInt32 := 0
deriving DecidableEq

structure Timespec where
  sec : Int64 := 0
  nsec : UInt32 := 0
deriving DecidableEq

structure Attr where
  type : FType := .reg
  mode : UInt32 := 0
  nlink : UInt32 := 0
  uid : UInt32 := 0
  gid : UInt32 := 0
  size : UInt64 := 0
  used : UInt64 := 0
  rdev : DevT := {}
  fileid : UInt64 := 0
  atime : Timespec := {}
  mtime : Timespec := {}
  ctime : Timespec := {}
  change : UInt64 := 0
deriving DecidableEq

inductive TimeHow where
  | omit | server | client
deriving DecidableEq

structure SetAttr where
  mode : Option UInt32 := none
  uid : Option UInt32 := none
  gid : Option UInt32 := none
  size : Option UInt64 := none
  atimeHow : TimeHow := .omit
  atime : Timespec := {}
  mtimeHow : TimeHow := .omit
  mtime : Timespec := {}
deriving DecidableEq

structure FsStats where
  tbytes : UInt64 := 0
  fbytes : UInt64 := 0
  abytes : UInt64 := 0
  tfiles : UInt64 := 0
  ffiles : UInt64 := 0
  afiles : UInt64 := 0
deriving DecidableEq

structure FsLimits where
  maxRead : UInt32 := 1048576
  maxWrite : UInt32 := 1048576
  maxFilesize : UInt64 := 0x7fffffffffffffff
  maxName : UInt32 := 255
  maxLink : UInt32 := 32000
  timeDelta : Timespec := ⟨0, 1⟩
deriving DecidableEq

def ObjId.from (bytes : Bytes) : Except Errno ObjId :=
  if bytes = [] then .error .inval
  else if h : bytes.length ≤ 51 then .ok ⟨bytes, h⟩
  else .error .inval

end LightNfs
