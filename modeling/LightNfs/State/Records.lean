import LightNfs.Lock.Manager
import LightNfs.Nfs4.Status

/-!
# Records and tables of the state manager

The data of `state_mgr.hpp`. A `shared_ptr` to a record is a reference, a number under which the heap
of the shared state keeps the record: two references are equal exactly when the pointers are, whatever
the record's wire id says. The hash tables are `Table`s. `by_id` lives in the shard of the owner's hash,
so it is keyed by shard and client id; the other tables are sharded by their own key, which a single
table already expresses.
-/

namespace LightNfs

/-- A `std::shared_ptr<ClientRec>`. -/
abbrev ClientRef := Nat

/-- A `std::shared_ptr<StateRec>`. -/
abbrev StateRef := Nat

/-- `StateOther`: boot epoch (4 bytes), type (1 byte), counter (7 bytes). -/
structure StateOther where
  epoch : UInt32
  type : UInt8
  counter : BitVec 56
deriving DecidableEq, Inhabited

structure Stateid where
  seqid : UInt32
  other : StateOther
deriving DecidableEq, Inhabited

namespace Stateid

def isAllZero (sid : Stateid) : Bool := sid == ⟨0, 0, 0, 0⟩

def isAllOne (sid : Stateid) : Bool := sid == ⟨0xffffffff, 0xffffffff, 0xff, BitVec.allOnes 56⟩

def isSpecial (sid : Stateid) : Bool := sid.isAllZero || sid.isAllOne

end Stateid

/-- `SessionId`: client id (8 bytes), counter (4 bytes), random (4 bytes). -/
structure SessionId where
  clientid : UInt64
  counter : UInt32
  nonce : UInt32
deriving DecidableEq

/-- `ClientRec`. The verifier's 8 bytes are only ever compared. -/
structure ClientRec where
  clientid : UInt64 := 0
  ownerId : Bytes := []
  principal : Bytes := []
  confirmed : Bool := false
  verifier : UInt64 := 0
  csSequence : UInt32 := 1
  csCachedReply : Bytes := []
  sessions : List SessionId := []
  leaseExpiry : Int := 0
  reclaimComplete : Bool := false
  persisted : Bool := false
  courtesy : Bool := false
  expired : Bool := false
  courtesySince : Int := 0
  leaseHeapDeadline : Int := -1
  delegs : UInt32 := 0
  states : List StateOther := []
  fsStates : Table UInt32 Nat := ∅
  leaseMovedUntil : Int := 0

structure ChannelAttrs where
  headerpad : UInt32 := 0
  maxRequest : UInt32 := 1048576
  maxResponse : UInt32 := 1048576
  maxResponseCached : UInt32 := 8192
  maxOps : UInt32 := 16
  maxRequests : UInt32 := 32
deriving DecidableEq

/-- `Slot`. A waiter on the slot's condition variable is a task that still has to classify its request. -/
structure Slot where
  seqid : UInt32 := 0
  inFlight : Bool := false
  cached : Bool := false
  reply : Bytes := []
deriving DecidableEq

/-- `SessionRec`; `slot_count` is the number of slots and the backchannel is the connection it is bound to.
The backchannel has a single slot: `cbInflight` says that a callback is on it. -/
structure SessionRec where
  client : ClientRef
  fore : ChannelAttrs
  back : ChannelAttrs
  slots : List Slot
  boundConns : List UInt64
  cbChan : Option UInt64
  cbDown : Bool
  cbSeq : UInt32 := 0
  cbInflight : Bool := false
  cbInflightSince : Int := 0
deriving DecidableEq

inductive StateType where
  | kOpen
  | kLock
  | kDeleg
deriving DecidableEq, Inhabited

def StateType.code : StateType → UInt8
  | kOpen => 1
  | kLock => 2
  | kDeleg => 3

abbrev ShareBits := BitVec 32

def kShareRead : ShareBits := 1
def kShareWrite : ShareBits := 2

structure StateRec where
  other : StateOther
  type : StateType := .kOpen
  seqid : UInt32 := 1
  client : ClientRef
  fsid : UInt32
  oid : ObjId
  owner : Bytes := []
  access : ShareBits := 0
  deny : ShareBits := 0
  lowner : LockOwnerId := ⟨List.replicate 24 0, 0, LockOwnerId.length_zeros, LockOwnerId.zero_le⟩
  parentOpen : Option StateRef := none
  closed : Bool := false
  fh : Bytes := []
  recalled : Bool := false
  recallDeadline : Int := 0

theorem length_one_le : ([1] : Bytes).length ≤ 51 := by decide

instance : Inhabited StateRec := ⟨{ other := default, client := 0, fsid := 0, oid := ⟨[], by decide⟩ }⟩

def StateRec.key (rec : StateRec) : FileKey := ⟨rec.fsid, rec.oid⟩

structure FileStateRec where
  opens : List StateRef := []
  locks : List StateRef := []
  delegs : List StateRef := []
deriving DecidableEq

namespace FileStateRec

def isEmpty (file : FileStateRec) : Bool := file.opens.isEmpty && file.locks.isEmpty && file.delegs.isEmpty

variable (file : FileStateRec) (t t' : StateType) (r : StateRef)

/-- The list a record of the given type is kept in. -/
def list : StateType → List StateRef
  | .kOpen => file.opens
  | .kLock => file.locks
  | .kDeleg => file.delegs

def push (type : StateType) (r : StateRef) : FileStateRec :=
  match type with
  | .kOpen => { file with opens := file.opens ++ [r] }
  | .kLock => { file with locks := file.locks ++ [r] }
  | .kDeleg => { file with delegs := file.delegs ++ [r] }

def drop (type : StateType) (r : StateRef) : FileStateRec :=
  match type with
  | .kOpen => { file with opens := file.opens.filter (· ≠ r) }
  | .kLock => { file with locks := file.locks.filter (· ≠ r) }
  | .kDeleg => { file with delegs := file.delegs.filter (· ≠ r) }

theorem list_push :
    (file.push t r).list t' = if t' = t then file.list t' ++ [r] else file.list t' := by
  cases t <;> cases t' <;> rfl

theorem list_drop :
    (file.drop t r).list t' = if t' = t then (file.list t').filter (· ≠ r) else file.list t' := by
  cases t <;> cases t' <;> rfl

theorem isEmpty_iff {file : FileStateRec} : file.isEmpty = true ↔ ∀ t, file.list t = [] := by
  refine ⟨fun h t => ?_, fun h => ?_⟩
  · simp only [isEmpty, Bool.and_eq_true, List.isEmpty_iff] at h
    cases t
    · exact h.1.1
    · exact h.1.2
    · exact h.2
  · simp only [isEmpty, Bool.and_eq_true, List.isEmpty_iff]
    exact ⟨⟨h .kOpen, h .kLock⟩, h .kDeleg⟩

@[simp] theorem list_empty (t : StateType) : ({} : FileStateRec).list t = [] := by cases t <;> rfl

end FileStateRec

structure OwnerSlot where
  confirmed : Option ClientRef := none
  unconfirmed : Option ClientRef := none
deriving DecidableEq

def OwnerSlot.without (slot : OwnerSlot) (c : ClientRef) : OwnerSlot where
  confirmed := if slot.confirmed = some c then none else slot.confirmed
  unconfirmed := if slot.unconfirmed = some c then none else slot.unconfirmed

structure LockOwnerRec where
  client : ClientRef
  owner : Bytes

/-- `StateMgr::GraceWindow`; the deadline is in nanoseconds of the steady clock. -/
structure GraceWindow where
  pending : List Bytes := []
  listed : List Bytes := []
  deadline : Nat := 0
  active : Bool := false
deriving DecidableEq

/-- `StateMgr::Config`. The boot epoch counts restarts from 1, and fits the 32 bits client and state ids
have for it. -/
structure Config where
  bootEpoch : UInt64 := 1
  leaseSeconds : UInt32 := 90
  graceSeconds : UInt32 := 0
  courtesyMultiplier : UInt32 := 24
  maxSlots : UInt32 := 32
  maxCachedReply : UInt32 := 8192
  maxOps : UInt32 := 64
  maxIo : UInt32 := 1048576
  maxClients : UInt32 := 4096
  maxStatesPerClient : UInt32 := 65536
  maxLockSegmentsPerOwner : UInt32 := 1024
  shards : UInt32 := 16
  delegations : Bool := true
  nativeLocks : UInt32 → Bool := fun _ => false
  perFsidReclaim : Bool := false
  bootEpoch_pos : 0 < bootEpoch := by decide
  bootEpoch_lt : bootEpoch < 4294967296 := by decide

namespace Config

def shardCount (cfg : Config) : Nat := max 1 cfg.shards.toNat

/-- The index of `owner_shard`. -/
def ownerShard (cfg : Config) (ownerId : Bytes) : Nat := (fnv64 ownerId).toNat % cfg.shardCount

/-- The epoch a state id of this boot carries. -/
def epoch32 (cfg : Config) : UInt32 := cfg.bootEpoch.toUInt32

end Config

/-- The counters `stats` reports. -/
structure Gauges where
  clients : Int := 0
  sessions : Int := 0
  opens : Int := 0
  locks : Int := 0
  delegs : Int := 0
  files : Int := 0
  courtesy : Int := 0
deriving DecidableEq

end LightNfs
