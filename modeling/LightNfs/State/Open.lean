import LightNfs.State.Client

/-!
# Open states and delegations

`unlink_state`, through which every state leaves the tables, then OPEN with its share arbitration, the
read delegations, and CLOSE, OPEN_DOWNGRADE and FREE_STATEID.
-/

namespace LightNfs

namespace Shared

variable (cfg : Config)

/-! ### Tracking and unlinking a state -/

variable (s : Shared)

def heldIn (c : ClientRef) (fsid : UInt32) : Nat := ((s.clients c).fsStates.find fsid).getD 0

/-- `track_state_locked`. -/
def trackState (c : ClientRef) (r : StateRef) : Shared :=
  let fsid := (s.states r).fsid
  s.modClient c fun client =>
    { client with
      states := client.states.insert (s.states r).other
      fsStates := client.fsStates.put fsid (s.heldIn c fsid + 1) }

/-- `untrack_state_locked`. -/
def untrack (r : StateRef) : Shared :=
  let fsid := (s.states r).fsid
  let held := s.heldIn (s.states r).client fsid
  s.modClient (s.states r).client fun client =>
    { client with
      states := client.states.filter (· ≠ (s.states r).other)
      fsStates := if held ≤ 1 then client.fsStates.remove fsid else client.fsStates.put fsid (held - 1) }

def untrackState (r : StateRef) (handover : Bool) : Shared × List Frame :=
  let rec_ := s.states r
  (s.untrack r,
    if s.heldIn rec_.client rec_.fsid = 1 ∧ cfg.perFsidReclaim ∧ !handover then
      [.unpersistFsClient rec_.fsid (s.holder r).ownerId]
    else [])

def insertState (r : StateRef) : Shared := { s with table := s.table.put (s.states r).other r }

/-- The first section of `unlink_state`: whoever sets `closed` goes on. -/
def unlinkState (r : StateRef) (fromClient handover : Bool) : Shared × List Frame :=
  if (s.states r).closed then (s, [])
  else
    ({ s with
        table := s.table.remove (s.states r).other
        gauges := if (s.states r).type = StateType.kOpen then { s.gauges with opens := s.gauges.opens - 1 }
          else s.gauges
        }.modState r fun rec => { rec with closed := true },
      [.unlinkFile r fromClient handover])

/-- The record leaves its file's list, and an empty entry goes with it. -/
def dropFromFile (s : Shared) (r : StateRef) : Shared :=
  let key := (s.states r).key
  match s.files.find key with
  | none => s
  | some file =>
    if (file.drop (s.states r).type r).isEmpty then
      { s with files := s.files.remove key, gauges := { s.gauges with files := s.gauges.files - 1 } }
    else s.setFile key (file.drop (s.states r).type r)

/-- The lock states derived from a closing open. -/
def dependents (r : StateRef) : List StateRef :=
  if (s.states r).type = .kOpen then
    (s.fileAt (s.states r).key).locks.filter fun l => (s.states l).parentOpen = some r
  else []

def unlinkFile (s : Shared) (r : StateRef) (fromClient handover : Bool) : Shared × List Frame :=
  (s.dropFromFile r,
    (match (s.states r).type with
      | .kOpen => []
      | .kLock => [Frame.unlinkLocks r]
      | .kDeleg => [Frame.unlinkDeleg r]) ++
    ((s.dependents r).map (Frame.unlinkState · fromClient handover) ++
      if fromClient then [Frame.untrackState r handover] else []))

def unlinkLocks (s : Shared) (r : StateRef) : Shared :=
  { s with
    locks := (s.locks.releaseOwner (s.states r).key (s.states r).lowner).1
    gauges := { s.gauges with locks := s.gauges.locks - 1 } }

def unlinkDeleg (r : StateRef) : Shared :=
  (s.modClient (s.states r).client fun client => { client with delegs := client.delegs - 1 }).tally fun g =>
    { g with delegs := g.delegs - 1 }

/-! ### OPEN -/

def shareConflict (access deny : ShareBits) (other : StateRec) : Bool :=
  access &&& other.deny ≠ 0 || deny &&& other.access ≠ 0

structure Arbitration where
  mine : Option StateRef
  denied : Bool := false
  courtesyConflict : Option UInt64 := none

/-- The loop over the file's opens, with the caller's own record found so far. -/
def arbitrate (s : Shared) (c : ClientRef) (args : OpenArgs) (mine : Option StateRef) : List StateRef → Arbitration
  | [] => { mine := mine }
  | r :: rest =>
    if s.dead r then s.arbitrate c args mine rest
    else if (s.states r).client = c ∧ (s.states r).owner = args.owner then s.arbitrate c args (some r) rest
    else if shareConflict args.access args.deny (s.states r) then
      if (s.holder r).courtesy then { mine := mine, courtesyConflict := some (s.holder r).clientid }
      else { mine := mine, denied := true }
    else s.arbitrate c args mine rest

def openState (args : OpenArgs) : List Frame :=
  match s.findClient cfg args.clientid with
  | none => [.reply (.status .staleClientid)]
  | some c =>
    if !(s.clients c).confirmed then [.reply (.status .staleClientid)]
    else if (s.clients c).expired then [.reply (.status .expired)]
    else [.openGate c args]

def openGate (c : ClientRef) (args : OpenArgs) : List Frame :=
  [.openGrace c args (s.clients c).reclaimComplete (s.clients c).states.length]

/-- The grace gate and the cap on the client's states. -/
def openGrace (c : ClientRef) (args : OpenArgs) (reclaimDone : Bool) (heldStates : Nat) : List Frame :=
  if args.reclaim ∧ !s.inGrace args.file.fsid then [.reply (.status .noGrace)]
  else if args.reclaim ∧ !s.inStableList args.file.fsid (s.clients c).ownerId then [.reply (.status .reclaimBad)]
  else if args.reclaim ∧ reclaimDone then [.reply (.status .noGrace)]
  else if !args.reclaim ∧ (s.inGrace args.file.fsid ∨ !reclaimDone) then [.reply (.status .grace)]
  else if cfg.maxStatesPerClient ≠ 0 ∧ heldStates ≥ cfg.maxStatesPerClient.toNat then [.reply (.status .resource)]
  else [.openArbitrate c args 0]

/-- The file's delegations that a write invalidates. -/
def liveDelegs (key : FileKey) : List StateRef := (s.fileAt key).delegs.filter fun d => !s.dead d

def openMerge (args : OpenArgs) (r : StateRef) : Shared :=
  s.modState r fun rec =>
    { rec with access := rec.access ||| args.access, deny := rec.deny ||| args.deny, seqid := rec.seqid + 1 }

def openCreate (c : ClientRef) (args : OpenArgs) : Shared :=
  { s with
    nextState := s.nextState + 1
    gauges := if (s.fileAt args.file).opens = [] then { s.gauges with files := s.gauges.files + 1 } else s.gauges
    }.publish
    { other := s.newOther cfg .kOpen, client := c, fsid := args.file.fsid, oid := args.file.oid,
      owner := args.owner, access := args.access, deny := args.deny }

/-- The file section of `open`. The entry `shard.table[key]` may have created is non-empty whenever the
section ends without a new record: a conflict or a recall comes from one of its lists. -/
def openArbitrate (s : Shared) (c : ClientRef) (args : OpenArgs) (attempt : Nat) : Shared × List Frame :=
  let arb := s.arbitrate c args none (s.fileAt args.file).opens
  match arb.courtesyConflict with
  | some clientid =>
    (s, if attempt ≥ 8 then [.reply (.status .delay)]
      else [.expireClient clientid .conflict, .openArbitrate c args (attempt + 1)])
  | none =>
    if arb.denied then (s, [.reply (.status .shareDenied)])
    else if args.access &&& kShareWrite ≠ 0 ∧ !args.delegClaim ∧ s.liveDelegs args.file ≠ [] then
      (s, (s.liveDelegs args.file).map Frame.startRecall ++ [Frame.reply (.status .delay)])
    else
      match arb.mine with
      | some r => (s.openMerge args r, [.openReply r true])
      | none => (s.openCreate cfg c args, [.openInsert c s.stateRefs])

def openInsert (c : ClientRef) (r : StateRef) : Shared × List Frame :=
  ((s.insertState r).tally fun g => { g with opens := g.opens + 1 }, [.openTrack c r])

/-- The client section that registers a new state: the client may have been retired since arbitration. -/
def register (c : ClientRef) (r : StateRef) (refused accepted : List Frame) : Shared × List Frame :=
  if (s.clients c).expired then (s, .unlinkState r false false :: refused)
  else
    (s.trackState c r,
      if s.heldIn c (s.states r).fsid = 0 ∧ cfg.perFsidReclaim then
        .persistFsClient (s.states r).fsid (s.clients c).ownerId :: accepted
      else accepted)

def openTrack (c : ClientRef) (r : StateRef) : Shared × List Frame :=
  s.register cfg c r [.reply (.status .expired)] [.openReply r false]

/-- The record's current state id, read without a lock. -/
def stateid (r : StateRef) : Stateid := ⟨(s.states r).seqid, (s.states r).other⟩

/-! ### Delegations -/

def startRecall (r : StateRef) : Shared :=
  if (s.states r).recalled then s
  else
    { s with
      recallWatch := s.recallWatch ++ [r]
      recallTasks := s.recallTasks ++ [r] }.modState r fun rec =>
      { rec with recalled := true, recallDeadline := s.now + cfg.leaseSeconds.toNat }

def grantReadDeleg (args : GrantArgs) : Shared × List Frame :=
  if !cfg.delegations ∨ args.reclaim ∨ args.access ≠ kShareRead then (s, [.reply (.delegated none)])
  else
    (s.noteGrace, if s.inGrace args.file.fsid then [.reply (.delegated none)] else [.grantSession args])

def grantSession (args : GrantArgs) : List Frame :=
  match s.sessions.find args.session with
  | none => [.reply (.delegated none)]
  | some session =>
    if s.usable session then [.grantFind args] else [.reply (.delegated none)]

def grantFind (args : GrantArgs) : List Frame :=
  match s.findClient cfg args.session.clientid with
  | none => [.reply (.delegated none)]
  | some c => if (s.clients c).expired then [.reply (.delegated none)] else [.grantClient c args]

def grantClient (c : ClientRef) (args : GrantArgs) : Shared × List Frame :=
  if cfg.maxStatesPerClient ≠ 0 ∧ (s.clients c).states.length ≥ cfg.maxStatesPerClient.toNat then
    (s, [.reply (.delegated none)])
  else ({ s with nextState := s.nextState + 1 }, [.grantFile c (s.newOther cfg .kDeleg) args])

/-- Another client's live write open, or a delegation of this client or under recall, is in the way. -/
def grantBlocked (c : ClientRef) (key : FileKey) : Bool :=
  ((s.fileAt key).opens.any fun o =>
    !s.dead o && (s.states o).client != c && (s.states o).access &&& kShareWrite != 0) ||
  (s.fileAt key).delegs.any fun d =>
    !(s.states d).closed && ((s.states d).client == c || (s.states d).recalled)

def grantFile (c : ClientRef) (other : StateOther) (args : GrantArgs) : Shared × List Frame :=
  if s.grantBlocked c args.file then (s, [.reply (.delegated none)])
  else
    (s.publish
        { other := other, type := .kDeleg, client := c, fsid := args.file.fsid, oid := args.file.oid,
          owner := [1, 100, 101, 108, 101, 103], access := kShareRead, fh := args.fh },
      [.grantInsert c s.stateRefs])

def grantInsert (c : ClientRef) (r : StateRef) : Shared × List Frame :=
  (s.insertState r, [.grantTrack c r])

def grantTrack (c : ClientRef) (r : StateRef) : Shared × List Frame :=
  if (s.clients c).expired then (s, [.grantCount c r true false])
  else (s.trackState c r, [.grantCount c r false (s.heldIn c (s.states r).fsid = 0)])

def grantCount (s : Shared) (c : ClientRef) (r : StateRef) (dead firstInFs : Bool) : Shared × List Frame :=
  ((s.modClient c fun client => { client with delegs := client.delegs + 1 }).tally fun g =>
      { g with delegs := g.delegs + 1 },
    if dead then [.unlinkState r false false, .reply (.delegated none)]
    else
      (if firstInFs ∧ cfg.perFsidReclaim then [.persistFsClient (s.states r).fsid (s.clients c).ownerId] else []) ++
        [Frame.reply (.delegated (some (s.stateid r)))])

def delegreturn (sid : Stateid) (clientid : UInt64) (file : FileKey) : List Frame :=
  if sid.other.epoch ≠ cfg.epoch32 then [.reply (.status .staleStateid)]
  else
    match s.table.find sid.other with
    | none => [.reply (.status .badStateid)]
    | some r =>
      if (s.states r).type ≠ .kDeleg ∨ (s.holder r).clientid ≠ clientid ∨ (s.states r).key ≠ file then
        [.reply (.status .badStateid)]
      else [.unlinkState r true false, .reply (.status .ok)]

def anyDelegations : Bool := s.gauges.delegs > 0

/-- The gate of the v3 procedures: `deleg_conflict` is not called while no delegation is counted. -/
def delegRecallNeeded (file : FileKey) : List Frame :=
  if s.anyDelegations then [.delegConflict file] else [.reply (.status .ok)]

def delegConflict (file : FileKey) : List Frame :=
  if s.gauges.delegs = 0 then [.reply (.status .ok)] else [.delegConflictFile file]

def delegConflictFile (file : FileKey) : List Frame :=
  if s.liveDelegs file = [] then [.reply (.status .ok)]
  else (s.liveDelegs file).map Frame.startRecall ++ [Frame.reply (.status .delay)]

/-- `op_open` with CLAIM_DELEG_CUR_FH: `check_deleg_claim`, then `open` past the recall gate. -/
def openDelegCur (sid : Stateid) (args : OpenArgs) : List Frame :=
  if sid.other.epoch ≠ cfg.epoch32 then [.reply (.status .staleStateid)]
  else
    match s.table.find sid.other with
    | none => [.reply (.status .badStateid)]
    | some r =>
      if (s.states r).type ≠ .kDeleg ∨ (s.holder r).clientid ≠ args.clientid ∨ (s.states r).key ≠ args.file then
        [.reply (.status .badStateid)]
      else [.openState { args with delegClaim := true }]

/-- The watch list is compacted by swapping with its last element; the order it leaves is not used. -/
def sweepRecalls : Shared × List Frame :=
  let open_ := s.recallWatch.filter fun r => !(s.states r).closed
  ({ s with recallWatch := open_.filter fun r => s.now < (s.states r).recallDeadline },
    (open_.filter fun r => (s.states r).recallDeadline ≤ s.now).map (.unlinkState · true false))

/-! ### CLOSE, OPEN_DOWNGRADE, FREE_STATEID -/

/-- The lookup these operations and LOCKU begin with. -/
def lookup (sid : Stateid) (next : StateRef → Frame) : List Frame :=
  if sid.isSpecial then [.reply (.status .badStateid)]
  else if sid.other.epoch ≠ cfg.epoch32 then [.reply (.status .staleStateid)]
  else
    match s.table.find sid.other with
    | none => [.reply (.status .badStateid)]
    | some r => [next r]

/-- The seqid discipline: zero means current. -/
def checkSeqid (r : StateRef) (seqid : UInt32) : Status :=
  if seqid = 0 then .ok
  else if seqid < (s.states r).seqid then .oldStateid
  else if seqid > (s.states r).seqid then .badStateid
  else .ok

/-- The stateid must name the file the current filehandle names. -/
def wrongFile (r : StateRef) (expect : Option FileKey) : Bool :=
  expect.any fun file => (s.states r).key ≠ file

def closeState (sid : Stateid) (clientid : UInt64) (expect : Option FileKey) : List Frame :=
  s.lookup cfg sid fun r => .closeCheck r sid clientid expect

def closeCheck (r : StateRef) (sid : Stateid) (clientid : UInt64) (expect : Option FileKey) :
    List Frame :=
  if clientid ≠ 0 ∧ (s.holder r).clientid ≠ clientid ∨ s.wrongFile r expect then [.reply (.status .badStateid)]
  else if clientid ≠ 0 ∧ s.checkSeqid r sid.seqid ≠ .ok then [.reply (.status (s.checkSeqid r sid.seqid))]
  else [.unlinkState r true false, .closeReply r sid.other]

def openDowngrade (sid : Stateid) (clientid : UInt64) (access deny : ShareBits)
    (expect : Option FileKey) : List Frame :=
  s.lookup cfg sid fun r => .downgradeCheck r sid clientid access deny expect

/-- The checks of `open_downgrade`, all made before the file's lock is taken. -/
def downgradeCheck (r : StateRef) (sid : Stateid) (clientid : UInt64) (access deny : ShareBits)
    (expect : Option FileKey) : List Frame :=
  if (s.holder r).clientid ≠ clientid ∨ (s.states r).type ≠ .kOpen ∨ s.wrongFile r expect then
    [.reply (.status .badStateid)]
  else if s.checkSeqid r sid.seqid ≠ .ok then [.reply (.status (s.checkSeqid r sid.seqid))]
  else if access = 0 ∨ access &&& ~~~(s.states r).access ≠ 0 ∨ deny &&& ~~~(s.states r).deny ≠ 0 then
    [.reply (.status .inval)]
  else [.downgradeWrite r sid.other access deny]

def downgradeWrite (r : StateRef) (access deny : ShareBits) : Shared :=
  s.modState r fun rec => { rec with access := access, deny := deny, seqid := rec.seqid + 1 }

def freeStateid (sid : Stateid) (clientid : UInt64) : List Frame :=
  s.lookup cfg sid fun r => .freeCheck r clientid

def freeCheck (r : StateRef) (clientid : UInt64) : List Frame :=
  if (s.holder r).clientid ≠ clientid then [.reply (.status .badStateid)]
  else if (s.states r).type ≠ .kLock then [.reply (.status .locksHeld)]
  else if s.locks.countOwner (s.states r).key (s.states r).lowner > 0 then [.reply (.status .locksHeld)]
  else [.unlinkState r true false, .reply (.status .ok)]

/-! ### READ, WRITE and TEST_STATEID -/

/-- `check_io`: a write without a state waits for reclaim, and the READ bypass ignores reservations. -/
def checkIo (sid : Stateid) (clientid : UInt64) (file : FileKey) (need : ShareBits) :
    Shared × List Frame :=
  if sid.isSpecial then
    (if need = kShareWrite then s.noteGrace else s,
      if need = kShareWrite ∧ s.inGrace file.fsid then [.reply (.status .grace)]
      else if sid.isAllOne then [.reply (.status .ok)]
      else [.ioAnonymous file need])
  else (s, s.lookup cfg sid fun r => .ioCheck r sid clientid file need)

/-- Anonymous I/O is subject to the share reservations, and an anonymous write recalls the delegations. -/
def ioAnonymous (file : FileKey) (need : ShareBits) : List Frame :=
  if (s.fileAt file).opens.any fun r => !s.dead r && (s.states r).deny &&& need != 0 then
    [.reply (.status .locked)]
  else if need = kShareWrite ∧ s.liveDelegs file ≠ [] then
    (s.liveDelegs file).map Frame.startRecall ++ [Frame.reply (.status .delay)]
  else [.reply (.status .ok)]

/-- The open whose access counts: a lock state's parent, or the record itself. -/
def ioOpen (r : StateRef) : StateRef :=
  if (s.states r).type = .kLock then (s.states r).parentOpen.getD r else r

def ioCheck (r : StateRef) (sid : Stateid) (clientid : UInt64) (file : FileKey) (need : ShareBits) :
    List Frame :=
  if (s.holder r).expired then [.reply (.status .expired)]
  else if (s.holder r).clientid ≠ clientid ∨ (s.states r).key ≠ file then [.reply (.status .badStateid)]
  else if s.checkSeqid r sid.seqid ≠ .ok then [.reply (.status (s.checkSeqid r sid.seqid))]
  else if (s.states (s.ioOpen r)).access &&& need = 0 then [.reply (.status .openmode)]
  else [.reply (.status .ok)]

/-- `op_test_stateid` on one state id; the seqid is not looked at. -/
def testStateid (sid : Stateid) : List Frame := s.lookup cfg sid fun _ => .reply (.status .ok)

end Shared

end LightNfs
