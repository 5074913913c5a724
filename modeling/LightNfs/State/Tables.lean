import LightNfs.State.Server
import Mathlib

/-!
# The tables behind the state manager

What the consistency results are about: which records exist, where they are indexed and what they say.
`Shared.tables` forgets leases, gauges, grace windows, slots, recall deadlines and sequence ids of states, and reads
every hash table as a function, so that a section which touches only the forgotten data leaves it equal.
-/

namespace LightNfs

open Function

/-- The indexed part of a client record; `held` reads `fs_states` with 0 for a missing entry. -/
structure ClientView where
  clientid : UInt64
  ownerId : Bytes
  principal : Bytes
  confirmed : Bool
  csSequence : UInt32
  csCachedReply : Bytes
  sessions : List SessionId
  expired : Bool
  states : List StateOther
  held : UInt32 → Nat

def ClientRec.view (client : ClientRec) : ClientView :=
  { clientid := client.clientid, ownerId := client.ownerId, principal := client.principal,
    confirmed := client.confirmed, csSequence := client.csSequence, csCachedReply := client.csCachedReply,
    sessions := client.sessions, expired := client.expired, states := client.states,
    held := fun fsid => (client.fsStates.find fsid).getD 0 }

structure StateView where
  other : StateOther
  type : StateType
  client : ClientRef
  key : FileKey
  owner : Bytes
  access : ShareBits
  deny : ShareBits
  lowner : LockOwnerId
  parentOpen : Option StateRef
  closed : Bool

def StateRec.view (rec : StateRec) : StateView :=
  { other := rec.other, type := rec.type, client := rec.client, key := rec.key, owner := rec.owner,
    access := rec.access, deny := rec.deny, lowner := rec.lowner, parentOpen := rec.parentOpen,
    closed := rec.closed }

structure Tables where
  clients : ClientRef → ClientView
  clientRefs : Nat
  nextClient : UInt32
  byId : Nat × UInt64 → Option ClientRef
  clientIdx : UInt64 → Option ClientRef
  byOwner : Bytes → OwnerSlot
  sessions : SessionId → Option ClientRef
  nextSession : UInt32
  states : StateRef → StateView
  stateRefs : Nat
  nextState : UInt64
  table : StateOther → Option StateRef
  files : FileKey → Option FileStateRec
  locks : GatewayLockMgr
  lockOwners : Bytes → Option ClientRef
  recallWatch : List StateRef

namespace Shared

def tables (s : Shared) : Tables where
  clients c := (s.clients c).view
  clientRefs := s.clientRefs
  nextClient := s.nextClient
  byId := s.byId.find
  clientIdx := s.clientIdx.find
  byOwner ownerId := (s.byOwner.find ownerId).getD {}
  sessions id := (s.sessions.find id).map SessionRec.client
  nextSession := s.nextSession
  states r := (s.states r).view
  stateRefs := s.stateRefs
  nextState := s.nextState
  table := s.table.find
  files := s.files.find
  locks := s.locks
  lockOwners id := (s.lockOwners.find id).map LockOwnerRec.client
  recallWatch := s.recallWatch

end Shared

namespace Tables

def fileAt (t : Tables) (key : FileKey) : FileStateRec := (t.files key).getD {}

def setClient (t : Tables) (c : ClientRef) (v : ClientView) : Tables :=
  { t with clients := update t.clients c v }

def setState (t : Tables) (r : StateRef) (v : StateView) : Tables :=
  { t with states := update t.states r v }

def setFile (t : Tables) (key : FileKey) (file : Option FileStateRec) : Tables :=
  { t with files := update t.files key file }

/-! ### The records the sections create -/

def openView (c : ClientRef) (args : OpenArgs) (other : StateOther) : StateView :=
  { other := other, type := .kOpen, client := c, key := args.file, owner := args.owner, access := args.access,
    deny := args.deny, lowner := ⟨List.replicate 24 0, 0, LockOwnerId.length_zeros, LockOwnerId.zero_le⟩, parentOpen := none, closed := false }

def delegView (c : ClientRef) (args : GrantArgs) (other : StateOther) : StateView :=
  { other := other, type := .kDeleg, client := c, key := args.file, owner := [1, 100, 101, 108, 101, 103],
    access := kShareRead, deny := 0, lowner := ⟨List.replicate 24 0, 0, LockOwnerId.length_zeros, LockOwnerId.zero_le⟩, parentOpen := none,
    closed := false }

def lockView (ctx : LockCtx) (other : StateOther) : StateView :=
  { other := other, type := .kLock, client := ctx.client, key := ctx.args.file, owner := ctx.ownerBytes, access := 0,
    deny := 0, lowner := ctx.lowner, parentOpen := some ctx.openRec, closed := false }

/-! ### What the sections do to the tables -/

section Operations

variable (cfg : Config) (t : Tables)
variable (c : ClientRef)

def idKey : Nat × UInt64 := (cfg.ownerShard (t.clients c).ownerId, (t.clients c).clientid)

def Registered : Prop := t.byId (t.idKey cfg c) = some c

def unindex : Tables :=
  { t with
    byId := update t.byId (t.idKey cfg c) none
    clientIdx := update t.clientIdx (t.clients c).clientid none }

def setSlot (ownerId : Bytes) (slot : OwnerSlot) : Tables :=
  { t with byOwner := update t.byOwner ownerId slot }

def clearSlot : Tables :=
  t.setSlot (t.clients c).ownerId ((t.byOwner (t.clients c).ownerId).without c)

def retire : Tables :=
  t.setClient c { t.clients c with expired := true, sessions := [], states := [] }

/-- `unpersist_client` forgets the per-export counts where the reclaim lists are per export. -/
def unpersist (c : ClientRef) : Tables :=
  if cfg.perFsidReclaim then t.setClient c { t.clients c with held := fun _ => 0 } else t

def addClient (args : ExchangeArgs) (slot : OwnerSlot) : Tables :=
  { t with
    clients := update t.clients t.clientRefs
      { clientid := Shared.clientidOf cfg t.nextClient, ownerId := args.ownerId, principal := args.principal,
        confirmed := false, csSequence := 1, csCachedReply := [], sessions := [], expired := false, states := [],
        held := fun _ => 0 }
    clientRefs := t.clientRefs + 1
    nextClient := t.nextClient + 1
    byOwner := update t.byOwner args.ownerId { slot with unconfirmed := some t.clientRefs }
    byId := update t.byId (cfg.ownerShard args.ownerId, Shared.clientidOf cfg t.nextClient) (some t.clientRefs)
    clientIdx := update t.clientIdx (Shared.clientidOf cfg t.nextClient) (some t.clientRefs) }

def dropUnconfirmed (slot : OwnerSlot) : Tables :=
  match slot.unconfirmed with
  | some u => t.unindex cfg u
  | none => t

def oldIncarnation : Option ClientRef := (t.byOwner (t.clients c).ownerId).confirmed.filter (· ≠ c)

def retireOld : Tables :=
  match t.oldIncarnation c with
  | some old => (t.retire old).unindex cfg old
  | none => t

def confirmIncarnation : Tables :=
  let slot := t.byOwner (t.clients c).ownerId
  let t' := (t.retireOld cfg c).setSlot (t.clients c).ownerId
    { confirmed := some c, unconfirmed := if slot.unconfirmed = some c then none else slot.unconfirmed }
  t'.setClient c { t'.clients c with confirmed := true }

def addSession (args : CreateArgs) (id : SessionId) : Tables :=
  { t with nextSession := t.nextSession + 1 }.setClient c
    { t.clients c with csSequence := args.sequence + 1, sessions := (t.clients c).sessions ++ [id] }

def setSession (id : SessionId) (c : Option ClientRef) : Tables :=
  { t with sessions := update t.sessions id c }

def cacheReply (reply : Bytes) : Tables :=
  t.setClient c { t.clients c with csCachedReply := reply }

def dropSession (id : SessionId) : Tables :=
  t.setClient c { t.clients c with sessions := (t.clients c).sessions.filter (· ≠ id) }

def forgetLockOwners (clientid : UInt64) : Tables :=
  { t with lockOwners := fun id => (t.lockOwners id).filter fun c => (t.clients c).clientid ≠ clientid }

def track (r : StateRef) : Tables :=
  t.setClient c
    { t.clients c with
      states := (t.clients c).states.insert (t.states r).other
      held := update (t.clients c).held (t.states r).key.fsid ((t.clients c).held (t.states r).key.fsid + 1) }

def untrack (r : StateRef) : Tables :=
  let c := (t.states r).client
  t.setClient c
    { t.clients c with
      states := (t.clients c).states.filter (· ≠ (t.states r).other)
      held := update (t.clients c).held (t.states r).key.fsid ((t.clients c).held (t.states r).key.fsid - 1) }

def insertState (r : StateRef) : Tables := { t with table := update t.table (t.states r).other (some r) }

def close (r : StateRef) : Tables :=
  { t with table := update t.table (t.states r).other none }.setState r { t.states r with closed := true }

def dropFromFile (r : StateRef) : Tables :=
  let key := (t.states r).key
  match t.files key with
  | none => t
  | some file =>
    let file' := file.drop (t.states r).type r
    t.setFile key (if file'.isEmpty then none else some file')

def publish (v : StateView) : Tables :=
  { t with
    states := update t.states t.stateRefs v
    stateRefs := t.stateRefs + 1
    files := update t.files v.key (some ((t.fileAt v.key).push v.type t.stateRefs)) }

def newOther (type : StateType) : StateOther := ⟨cfg.epoch32, type.code, t.nextState.toBitVec.setWidth 56⟩

def mint : Tables := { t with nextState := t.nextState + 1 }

def setShare (r : StateRef) (access deny : ShareBits) : Tables :=
  t.setState r { t.states r with access := access, deny := deny }

def touchFile (key : FileKey) : Tables := t.setFile key (some (t.fileAt key))

def setLocks (locks : GatewayLockMgr) : Tables := { t with locks := locks }

def setWatch (watch : List StateRef) : Tables := { t with recallWatch := watch }

def rememberOwner (lowner : LockOwnerId) (c : ClientRef) : Tables :=
  { t with lockOwners := update t.lockOwners lowner.view (some c) }

end Operations

end Tables

/-! ### Sections that only touch what the tables forget -/

namespace Shared

variable (cfg : Config) (s : Shared)
variable (c : ClientRef) (r : StateRef)

theorem tables_modClient (f : ClientRec → ClientRec) :
    (s.modClient c f).tables = s.tables.setClient c (f (s.clients c)).view := by
  have hclients : (fun c' => (update s.clients c (f (s.clients c)) c').view) =
      update (fun c' => (s.clients c').view) c (f (s.clients c)).view := by
    funext c'
    by_cases h : c' = c
    · subst h
      simp
    · simp [h]
  simp only [tables, modClient, Tables.setClient, hclients]

theorem tables_modClient_of_view {c : ClientRef} {f : ClientRec → ClientRec}
    (h : (f (s.clients c)).view = (s.clients c).view) : (s.modClient c f).tables = s.tables := by
  rw [tables_modClient, h]
  simp [Tables.setClient, tables]

theorem tables_modState (f : StateRec → StateRec) :
    (s.modState r f).tables = s.tables.setState r (f (s.states r)).view := by
  have hstates : (fun r' => (update s.states r (f (s.states r)) r').view) =
      update (fun r' => (s.states r').view) r (f (s.states r)).view := by
    funext r'
    by_cases h : r' = r
    · subst h
      simp
    · simp [h]
  simp only [tables, modState, Tables.setState, hstates]

theorem tables_modState_of_view {r : StateRef} {f : StateRec → StateRec}
    (h : (f (s.states r)).view = (s.states r).view) : (s.modState r f).tables = s.tables := by
  rw [tables_modState, h]
  simp [Tables.setState, tables]

@[simp] theorem tables_tally (f : Gauges → Gauges) : (s.tally f).tables = s.tables := rfl

@[simp] theorem tables_armLeaseCheck (when_ : Int) : (s.armLeaseCheck c when_).tables = s.tables := by
  simp only [armLeaseCheck]
  split
  · rfl
  · exact tables_modClient_of_view _ rfl

@[simp] theorem tables_renew : (s.renew cfg c).tables = s.tables := by
  simp only [renew]
  split
  · rw [tables_armLeaseCheck, tables_tally]
    apply tables_modClient_of_view
    rfl
  · apply tables_modClient_of_view
    rfl

@[simp] theorem tables_clearCourtesy : (s.clearCourtesy c).tables = s.tables := by
  unfold clearCourtesy
  split
  · rw [tables_tally]
    apply tables_modClient_of_view
    rfl
  · rfl

@[simp] theorem tables_noteGrace : s.noteGrace.tables = s.tables := by
  unfold noteGrace
  split <;> rfl

variable (fsid : UInt32) (ownerId : Bytes)

@[simp] theorem tables_noteReclaimed : (s.noteReclaimed ownerId).tables = s.tables := rfl

@[simp] theorem tables_loadGraceList (listed : List Bytes) :
    (s.loadGraceList cfg fsid listed).tables = s.tables := by
  unfold loadGraceList armGrace
  dsimp only
  split <;> rfl

@[simp] theorem tables_endGrace : (s.endGrace fsid).tables = s.tables := rfl

@[simp] theorem tables_stablePut : (s.stablePut fsid ownerId).tables = s.tables := rfl

@[simp] theorem tables_stableErase :
    (s.stableErase fsid ownerId).tables = s.tables := rfl

@[simp] theorem tables_persistClient : (s.persistClient cfg c).tables = s.tables := by
  unfold persistClient
  split <;> rfl

theorem tables_startRecall : (s.startRecall cfg r).tables =
    if (s.states r).recalled then s.tables else s.tables.setWatch (s.recallWatch ++ [r]) := by
  unfold startRecall
  split
  · rfl
  · apply tables_modState_of_view
    rfl

@[simp] theorem tables_bumpSeqid : (s.bumpSeqid r).tables = s.tables := by
  apply tables_modState_of_view
  rfl

theorem tables_putSession {id : SessionId} {session session' : SessionRec} (hfind : s.sessions.find id = some session)
    (hclient : session'.client = session.client) : (s.putSession id session').tables = s.tables := by
  have hsessions : (fun id' => ((s.sessions.put id session').find id').map SessionRec.client) =
      fun id' => (s.sessions.find id').map SessionRec.client := by
    funext id'
    rw [Table.find_put]
    split
    · rename_i h
      rw [h, hfind, Option.map_some, Option.map_some, hclient]
    · rfl
  simp only [tables, putSession, hsessions]

theorem tables_modSession {id : SessionId} {f : SessionRec → SessionRec} (hf : ∀ x, (f x).client = x.client) :
    (s.modSession id f).1.tables = s.tables := by
  unfold modSession
  split
  · rfl
  · rename_i session hfind
    exact tables_putSession s hfind (hf session)

theorem tables_modHeld {id : SessionId} {f : SessionRec → SessionRec} (hf : ∀ x, (f x).client = x.client) :
    (s.modHeld id f).tables = s.tables := by
  unfold modHeld
  split
  · rename_i session hfind
    exact tables_putSession s hfind (hf session)
  · split <;> rfl

theorem tables_sendClaim (id : SessionId) (cb : Callback) : (s.sendClaim cfg id cb).1.tables = s.tables := by
  unfold sendClaim
  split
  · rfl
  · split
    · rfl
    · split
      · rfl
      · split
        · split
          · exact tables_modHeld s fun _ => rfl
          · rfl
        · exact tables_modHeld s fun _ => rfl

theorem tables_sendCall (id : SessionId) (slotSeq : UInt32) (chan : UInt64) (cb : Callback) :
    (s.sendCall id slotSeq chan cb).1.tables = s.tables := by
  unfold sendCall
  split <;> rfl

theorem tables_runRecall : s.runRecall.1.tables = s.tables := by
  unfold runRecall
  split <;> rfl

@[simp] theorem tables_modSlot (id : SessionId) (slotid : UInt32) (f : Slot → Slot) :
    (s.modSlot id slotid f).tables = s.tables := by
  unfold modSlot
  split
  · rfl
  · rename_i session hfind
    split
    · exact tables_putSession s hfind rfl
    · rfl

@[simp] theorem tables_sequenceBegin (args : SequenceArgs) :
    (s.sequenceBegin cfg args).1.tables = s.tables := by
  unfold sequenceBegin
  split
  · rfl
  · rename_i session hfind
    split
    · rfl
    · dsimp only
      split
      · exact tables_putSession s hfind rfl
      · split
        · exact tables_putSession s hfind rfl
        · split
          · exact tables_putSession s hfind rfl
          · exact tables_putSession s hfind rfl
          · rw [tables_renew]
            exact tables_putSession s hfind rfl
          · rw [tables_renew]
            exact tables_putSession s hfind rfl
          · rw [tables_renew]
            exact tables_putSession s hfind rfl

@[simp] theorem tables_reclaimClient (clientid : UInt64) :
    (s.reclaimClient cfg c clientid).1.tables = s.tables := by
  unfold reclaimClient
  dsimp only
  split
  · rfl
  · split
    · rfl
    · dsimp only
      apply tables_modClient_of_view
      rfl

@[simp] theorem tables_grantReadDeleg (args : GrantArgs) : (s.grantReadDeleg cfg args).1.tables = s.tables := by
  unfold grantReadDeleg
  split
  · rfl
  · exact tables_noteGrace s

@[simp] theorem tables_checkIo (sid : Stateid) (clientid : UInt64) (file : FileKey) (need : ShareBits) :
    (s.checkIo cfg sid clientid file need).1.tables = s.tables := by
  unfold checkIo
  split
  · dsimp only
    split
    · exact tables_noteGrace s
    · rfl
  · rfl

@[simp] theorem tables_grantCount (dead firstInFs : Bool) :
    (s.grantCount cfg c r dead firstInFs).1.tables = s.tables := by
  unfold grantCount
  rw [tables_tally]
  apply tables_modClient_of_view
  rfl

@[simp] theorem tables_lockRefused (ctx : LockCtx) (answer : Answer) :
    (s.lockRefused ctx answer).1.tables = s.tables := by
  unfold lockRefused
  split
  · split
    · exact tables_noteGrace s
    · rfl
  · rfl

@[simp] theorem tables_releaseVictims (until_ : Int) (victims : List StateRef) :
    (s.releaseVictims fsid until_ victims).1.tables = s.tables := by
  unfold releaseVictims
  split
  · rfl
  · split
    · rfl
    · dsimp only
      apply tables_modClient_of_view
      rfl

theorem tables_popDue (now : Int) (heap : List (Int × UInt64)) : (popDue now heap s).1.tables = s.tables := by
  induction heap generalizing s with
  | nil => rfl
  | cons entry rest ih =>
    unfold popDue
    split
    · split
      · exact ih s
      · split
        · exact ih s
        · refine (ih _).trans ?_
          apply tables_modClient_of_view
          rfl
    · rfl

@[simp] theorem tables_scanLeases : s.scanLeases.1.tables = s.tables := tables_popDue s s.now s.leaseHeap

@[simp] theorem tables_scanDue (now : Int) (due : List ClientRef) (timedOut : List UInt64) :
    (s.scanDue cfg now due timedOut).1.tables = s.tables := by
  unfold scanDue
  split
  · rfl
  · dsimp only
    split
    · rfl
    · split
      · split
        · rfl
        · exact tables_armLeaseCheck s _ _
      · split
        · exact tables_armLeaseCheck s _ _
        · rfl

end Shared

end LightNfs
