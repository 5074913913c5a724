import LightNfs.State.Records

/-!
# Shared state, requests and frames

`Shared` is everything the shard mutexes and atomics of `StateMgr` protect. A request is executed as a
stack of frames; a frame stands for one lock section, for an unlocked read or write of shared data that
other tasks can observe in between, or for an answer. The locals a section needs are the arguments of
its frame.
-/

namespace LightNfs

/-- A callback as `send_cb` builds it; CB_RECALL is built from the delegation it points to. -/
inductive Callback where
  | recallDeleg (r : StateRef) (sid : Stateid) (fh : Bytes)
  | notifyLock (clientid : UInt64) (owner fh : Bytes)
deriving DecidableEq

/-- A callback that was handed to a channel, with the session and slot sequence it was sent under. -/
structure CbCall where
  session : SessionId
  slotSeq : UInt32
  chan : UInt64
  callback : Callback
deriving DecidableEq

structure Shared where
  /-- `steady_clock` in nanoseconds. -/
  clock : Nat := 0
  gauges : Gauges := {}
  clients : ClientRef → ClientRec := fun _ => {}
  clientRefs : Nat := 0
  nextClient : UInt32 := 1
  byId : Table (Nat × UInt64) ClientRef := ∅
  clientIdx : Table UInt64 ClientRef := ∅
  byOwner : Table Bytes OwnerSlot := ∅
  leaseHeap : List (Int × UInt64) := []
  sessions : Table SessionId SessionRec := ∅
  nextSession : UInt32 := 1
  /-- Sessions out of the table, which a callback may still hold. -/
  erased : Table SessionId SessionRec := ∅
  states : StateRef → StateRec := fun _ => default
  stateRefs : Nat := 0
  nextState : UInt64 := 1
  table : Table StateOther StateRef := ∅
  files : Table FileKey FileStateRec := ∅
  locks : GatewayLockMgr := GatewayLockMgr.empty
  lockOwners : Table Bytes LockOwnerRec := ∅
  recallWatch : List StateRef := []
  /-- The recall tasks that were spawned and have not begun. -/
  recallTasks : List StateRef := []
  /-- Every callback handed to a channel so far. -/
  cbCalls : List CbCall := []
  /-- Connections that were torn down; their channels are detached. -/
  detached : List UInt64 := []
  grace : Table UInt32 GraceWindow := ∅
  graceAny : Bool := false
  /-- What has been put on the reclaim lists since the start, by export; 0 is the global one. -/
  stable : UInt32 → List Bytes := fun _ => []

/-! ### Requests and answers -/

structure ExchangeArgs where
  ownerId : Bytes
  verifier : UInt64
  principal : Bytes
  update : Bool := false
deriving DecidableEq

/-- CREATE_SESSION as `op_create_session` decodes it. -/
structure CreateArgs where
  clientid : UInt64
  sequence : UInt32
  flags : UInt32 := 0
  principal : Bytes
  fore : ChannelAttrs := {}
  back : ChannelAttrs := {}
  connId : UInt64 := 0
deriving DecidableEq

structure SequenceArgs where
  id : SessionId
  slotid : UInt32
  seqid : UInt32
  highest : UInt32
  connId : UInt64 := 0
deriving DecidableEq

structure OpenArgs where
  clientid : UInt64
  file : FileKey
  owner : Bytes
  access : ShareBits
  deny : ShareBits
  reclaim : Bool := false
  delegClaim : Bool := false
deriving DecidableEq

/-- `maybe_grant_read_deleg`; the engine takes the client id out of the session id. -/
structure GrantArgs where
  session : SessionId
  file : FileKey
  fh : Bytes
  access : ShareBits
  reclaim : Bool := false
deriving DecidableEq

structure LockArgs where
  clientid : UInt64
  file : FileKey
  exclusive : Bool
  reclaim : Bool := false
  range : LockRange
  newOwner : Bool
  openStateid : Stateid := default
  owner : Bytes := []
  lockStateid : Stateid := default
deriving DecidableEq

structure LocktArgs where
  clientid : UInt64
  file : FileKey
  owner : Bytes
  exclusive : Bool
  range : LockRange
deriving DecidableEq

/-- What `lock` has resolved once the request is checked. -/
structure LockCtx where
  args : LockArgs
  client : ClientRef
  heldStates : Nat
  openRec : StateRef
  lockRec : Option StateRef
  ownerBytes : Bytes
  lowner : LockOwnerId
deriving DecidableEq

structure LockDenied where
  range : LockRange
  exclusive : Bool
  clientid : UInt64 := 0
  owner : Bytes := []
deriving DecidableEq

/-- `SeqResult` of an accepted request, the negotiated limits of its session. -/
structure SeqAccepted where
  maxOps : UInt32
  maxRequest : UInt32
  maxResponse : UInt32
  maxResponseCached : UInt32
  highestSlot : UInt32
  statusFlags : UInt32
deriving DecidableEq

inductive Answer where
  | status (s : Status)
  | exchanged (clientid : UInt64) (sequenceid : UInt32) (confirmedR : Bool)
  | session (body : Bytes)
  | accepted (r : SeqAccepted)
  | replay (bytes : Bytes)
  | opened (sid : Stateid) (merged : Bool)
  | stateid (sid : Stateid)
  | denied (d : LockDenied)
  | delegated (sid : Option Stateid)
deriving DecidableEq

/-- `kReasonForced` and the other reasons of `expire_client_impl`. -/
inductive Reason where
  | forced
  | conflict
  | timeout
deriving DecidableEq

/-! ### Frames

The first frame of each group is the entry of the request, with the arguments of the call. -/

inductive Frame where
  | reply (answer : Answer)
  | tick (nanoseconds : Nat)
  -- EXCHANGE_ID, CREATE_SESSION, DESTROY_SESSION, DESTROY_CLIENTID, RECLAIM_COMPLETE
  | exchangeId (args : ExchangeArgs)
  | createSession (args : CreateArgs)
  | createClient (c : ClientRef) (args : CreateArgs)
  | createInsert (id : SessionId) (session : SessionRec)
  | eraseSession (id : SessionId)
  | reapState (other : StateOther)
  | confirmCreateSession (clientid : UInt64) (reply : Bytes)
  | confirmClient (c : ClientRef) (clientid : UInt64) (reply : Bytes)
  | persistClient (c : ClientRef)
  | destroySession (id : SessionId) (connId : UInt64)
  | destroySessionClient (c : ClientRef) (id : SessionId)
  | destroyClientid (clientid : UInt64)
  | destroyClient (c : ClientRef) (clientid : UInt64)
  | forgetLockOwners (clientid : UInt64)
  | bindConn (id : SessionId) (connId : UInt64)
  | bindBackchannel (id : SessionId) (chan : UInt64)
  | reclaimComplete (clientid : UInt64)
  | reclaimClient (c : ClientRef) (clientid : UInt64)
  | noteReclaimed (ownerId : Bytes)
  -- SEQUENCE
  | sequenceBegin (args : SequenceArgs)
  | sequenceAbort (id : SessionId) (slotid : UInt32)
  | sequenceComplete (id : SessionId) (slotid seqid : UInt32) (cache : Bool) (reply : Bytes)
  -- `unlink_state`
  | unlinkState (r : StateRef) (fromClient handover : Bool)
  | unlinkFile (r : StateRef) (fromClient handover : Bool)
  | unlinkLocks (r : StateRef)
  | unlinkDeleg (r : StateRef)
  | untrackState (r : StateRef) (handover : Bool)
  | persistFsClient (fsid : UInt32) (ownerId : Bytes)
  | unpersistFsClient (fsid : UInt32) (ownerId : Bytes)
  -- OPEN
  | openDelegCur (sid : Stateid) (args : OpenArgs)
  | openState (args : OpenArgs)
  | openGate (c : ClientRef) (args : OpenArgs)
  | openGrace (c : ClientRef) (args : OpenArgs) (reclaimDone : Bool) (heldStates : Nat)
  | openArbitrate (c : ClientRef) (args : OpenArgs) (attempt : Nat)
  | openInsert (c : ClientRef) (r : StateRef)
  | openTrack (c : ClientRef) (r : StateRef)
  | openReply (r : StateRef) (merged : Bool)
  -- delegations
  | startRecall (r : StateRef)
  | grantReadDeleg (args : GrantArgs)
  | grantSession (args : GrantArgs)
  | grantFind (args : GrantArgs)
  | grantClient (c : ClientRef) (args : GrantArgs)
  | grantFile (c : ClientRef) (other : StateOther) (args : GrantArgs)
  | grantInsert (c : ClientRef) (r : StateRef)
  | grantTrack (c : ClientRef) (r : StateRef)
  | grantCount (c : ClientRef) (r : StateRef) (dead firstInFs : Bool)
  | delegreturn (sid : Stateid) (clientid : UInt64) (file : FileKey)
  | delegRecallNeeded (file : FileKey)
  | delegConflict (file : FileKey)
  | delegConflictFile (file : FileKey)
  | sweepRecalls
  -- callbacks, and what happens to the connections they are sent on
  | runRecall
  | recallTask (r : StateRef)
  | notifyTask (clientid : UInt64) (owner fh : Bytes)
  | sendCb (c : ClientRef) (cb : Callback)
  | sendScan (cb : Callback) (ids : List SessionId)
  | sendClaim (id : SessionId) (cb : Callback)
  | sendCall (id : SessionId) (slotSeq : UInt32) (chan : UInt64) (cb : Callback)
  | sendReply (id : SessionId) (sent : Bool)
  | detach (conn : UInt64)
  -- CLOSE, OPEN_DOWNGRADE, FREE_STATEID
  | closeState (sid : Stateid) (clientid : UInt64) (expect : Option FileKey)
  | closeCheck (r : StateRef) (sid : Stateid) (clientid : UInt64) (expect : Option FileKey)
  | closeReply (r : StateRef) (other : StateOther)
  | openDowngrade (sid : Stateid) (clientid : UInt64) (access deny : ShareBits) (expect : Option FileKey)
  | downgradeCheck (r : StateRef) (sid : Stateid) (clientid : UInt64) (access deny : ShareBits)
      (expect : Option FileKey)
  | downgradeWrite (r : StateRef) (other : StateOther) (access deny : ShareBits)
  | stateidReply (r : StateRef) (other : StateOther)
  | freeStateid (sid : Stateid) (clientid : UInt64)
  | freeCheck (r : StateRef) (clientid : UInt64)
  -- READ, WRITE and the other operations that quote a stateid for I/O, TEST_STATEID
  | checkIo (sid : Stateid) (clientid : UInt64) (file : FileKey) (need : ShareBits)
  | ioAnonymous (file : FileKey) (need : ShareBits)
  | ioCheck (r : StateRef) (sid : Stateid) (clientid : UInt64) (file : FileKey) (need : ShareBits)
  | testStateid (sid : Stateid)
  -- LOCK, LOCKT, LOCKU
  | lock (args : LockArgs)
  | lockGate (c : ClientRef) (args : LockArgs)
  | lockGrace (c : ClientRef) (args : LockArgs) (reclaimDone : Bool) (heldStates : Nat)
  | lockState (c : ClientRef) (args : LockArgs) (heldStates : Nat)
  | lockCheck (c : ClientRef) (args : LockArgs) (heldStates : Nat) (r : StateRef)
  | lockCaps (ctx : LockCtx)
  | lockBefore (ctx : LockCtx)
  | lockArbitrate (ctx : LockCtx) (before : List LockSeg) (attempt : Nat)
  | lockConflict (ctx : LockCtx) (before : List LockSeg) (attempt : Nat) (conflict : LockConflict)
  | lockPush (ctx : LockCtx) (before : List LockSeg)
  | lockRestore (ctx : LockCtx) (before : List LockSeg)
  | lockRelock (ctx : LockCtx) (seg : LockSeg)
  | lockRefused (ctx : LockCtx) (answer : Answer)
  | lockRemember (ctx : LockCtx)
  | lockFile (ctx : LockCtx)
  | lockInsert (c : ClientRef) (l : StateRef)
  | lockTrack (c : ClientRef) (l : StateRef)
  | lockReply (l : StateRef)
  | lockt (args : LocktArgs)
  | locktTest (args : LocktArgs) (attempt : Nat)
  | locktConflict (args : LocktArgs) (attempt : Nat) (conflict : LockConflict)
  | locktProbe (args : LocktArgs)
  | locku (sid : Stateid) (clientid : UInt64) (range : LockRange) (expect : Option FileKey)
  | lockuCheck (r : StateRef) (sid : Stateid) (clientid : UInt64) (range : LockRange) (expect : Option FileKey)
  | lockuRange (r : StateRef) (other : StateOther) (range : LockRange)
  | lockuBump (r : StateRef) (other : StateOther)
  -- leases, expiry and handover
  | scanLeases
  | scanDue (now : Int) (due : List ClientRef) (timedOut : List UInt64)
  | scanClient (now : Int) (c : ClientRef) (due : List ClientRef) (timedOut : List UInt64)
  | expireClient (clientid : UInt64) (reason : Reason)
  | expireSection (c : ClientRef) (clientid : UInt64) (reason : Reason)
  | unpersistClient (c : ClientRef)
  | releaseFsid (fsid : UInt32)
  | releaseScan (fsid : UInt32) (shard : Nat) (victims : List StateRef)
  | releaseVictims (fsid : UInt32) (until_ : Int) (victims : List StateRef)
  | armGrace (fsid : UInt32)
  | endGrace (fsid : UInt32)
deriving DecidableEq

/-- The storage's answer to a pushed or probed lock, its error already mapped by `native_lock_status`. -/
inductive NativeOutcome where
  | granted
  | refused (conflict : Option LockConflict)
  | failed (error : Status)

/-- What a step takes from outside: the random part of a session id, the storage's answer, the reply to a
callback (none when its connection was lost, otherwise whether it is a well-formed RPC answer), and the owners
a reclaim list has from earlier starts or other servers. -/
structure Input where
  nonce : UInt32 := 0
  native : NativeOutcome := .granted
  reply : Option Bool := some true
  listed : List Bytes := []

/-! ### Access to the shared state -/

namespace Shared

variable (cfg : Config) (s : Shared)

/-- `now_coarse`. -/
def now : Int := s.clock / 1000000000

def tally (f : Gauges → Gauges) : Shared := { s with gauges := f s.gauges }

def modClient (c : ClientRef) (f : ClientRec → ClientRec) : Shared :=
  { s with clients := Function.update s.clients c (f (s.clients c)) }

def modState (r : StateRef) (f : StateRec → StateRec) : Shared :=
  { s with states := Function.update s.states r (f (s.states r)) }

/-- The record behind a state reference, and the client that holds it. -/
def holder (r : StateRef) : ClientRec := s.clients (s.states r).client

/-- Closed, or its client's reclaim chain has started: such an entry never arbitrates. -/
def dead (r : StateRef) : Bool := (s.states r).closed || (s.holder r).expired

/-- The lists of a file; a file without an entry has none. -/
def fileAt (key : FileKey) : FileStateRec := (s.files.find key).getD {}

def setFile (key : FileKey) (file : FileStateRec) : Shared :=
  { s with files := s.files.put key file }

/-- The entry `shard.table[key]` leaves behind when nothing else happens to it. -/
def touchFile (key : FileKey) : Shared := s.setFile key (s.fileAt key)

def newOther (type : StateType) : StateOther :=
  ⟨cfg.epoch32, type.code, s.nextState.toBitVec.setWidth 56⟩

/-- `make_shared<StateRec>` and the publication in its file's list. -/
def publish (rec : StateRec) : Shared :=
  { s with
    states := Function.update s.states s.stateRefs rec
    stateRefs := s.stateRefs + 1
    files := s.files.put rec.key ((s.fileAt rec.key).push rec.type s.stateRefs) }

def alive (chan : UInt64) : Bool := decide (chan ∉ s.detached)

/-- The session's backchannel is bound to a live connection and was not marked down. -/
def usable (session : SessionRec) : Bool := session.cbChan.any s.alive && !session.cbDown

/-- `find_client_sync`. -/
def findClient (clientid : UInt64) : Option ClientRef :=
  if clientid >>> 32 ≠ cfg.bootEpoch then none else s.clientIdx.find clientid

/-- The key of a client in `by_id`. -/
def idKey (c : ClientRef) : Nat × UInt64 :=
  (cfg.ownerShard (s.clients c).ownerId, (s.clients c).clientid)

/-- `by_id` still maps the client's id to this record. -/
def Registered (c : ClientRef) : Prop := s.byId.find (s.idKey cfg c) = some c

instance (cfg : Config) (s : Shared) (c : ClientRef) : Decidable (s.Registered cfg c) :=
  inferInstanceAs (Decidable (_ = _))

end Shared

end LightNfs
