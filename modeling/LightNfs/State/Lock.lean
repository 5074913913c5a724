import LightNfs.State.Open

/-!
# LOCK, LOCKT and LOCKU

The byte ranges live in the gateway lock table, the lock stateids in the state tables. LOCK validates
its stateid first, then arbitrates in the lock table, pushes the grant to the storage where the export
has a native lock manager, and only then reuses or mints the lock state of the owner and file.
-/

namespace LightNfs

namespace Shared

variable (cfg : Config)
variable (s : Shared)

def lock (args : LockArgs) : List Frame :=
  match s.findClient cfg args.clientid with
  | none => [.reply (.status .staleClientid)]
  | some c =>
    if !(s.clients c).confirmed then [.reply (.status .staleClientid)]
    else if (s.clients c).expired then [.reply (.status .expired)]
    else [.lockGate c args]

def lockGate (c : ClientRef) (args : LockArgs) : List Frame :=
  [.lockGrace c args (s.clients c).reclaimComplete (s.clients c).states.length]

def lockGrace (c : ClientRef) (args : LockArgs) (reclaimDone : Bool) (heldStates : Nat) : List Frame :=
  if args.reclaim ∧ (!s.inGrace args.file.fsid ∨ reclaimDone) then [.reply (.status .noGrace)]
  else if args.reclaim ∧ !s.inStableList args.file.fsid (s.clients c).ownerId then [.reply (.status .reclaimBad)]
  else if !args.reclaim ∧ (s.inGrace args.file.fsid ∨ !reclaimDone) then [.reply (.status .grace)]
  else [.lockState c args heldStates]

def lockState (c : ClientRef) (args : LockArgs) (heldStates : Nat) : List Frame :=
  s.lookup cfg (if args.newOwner then args.openStateid else args.lockStateid) fun r => .lockCheck c args heldStates r

/-- The open a lock request rests on: the one it names, or the parent of the lock state it names. -/
def anchor (args : LockArgs) (r : StateRef) : Option StateRef :=
  if args.newOwner then some r else (s.states r).parentOpen

/-- The record must be the caller's, of the right type and on this file, at a current seqid, and the open
must cover the lock type. -/
def lockCheck (c : ClientRef) (args : LockArgs) (heldStates : Nat) (r : StateRef) : List Frame :=
  let seqid := if args.newOwner then args.openStateid.seqid else args.lockStateid.seqid
  let need := if args.exclusive then kShareWrite else kShareRead
  let ownerBytes := if args.newOwner then args.owner else (s.states r).owner
  if (s.states r).type ≠ (if args.newOwner then .kOpen else .kLock) ∨ (s.states r).client ≠ c ∨
      (s.states r).key ≠ args.file then [.reply (.status .badStateid)]
  else if s.checkSeqid r seqid ≠ .ok then [.reply (.status (s.checkSeqid r seqid))]
  else
    match s.anchor args r with
    | none => [.reply (.status .openmode)]
    | some o =>
      if (s.states o).closed ∨ (s.states o).access &&& need = 0 then [.reply (.status .openmode)]
      else
        [.lockCaps { args := args, client := c, heldStates := heldStates, openRec := o,
                     lockRec := if args.newOwner then none else some r, ownerBytes := ownerBytes,
                     lowner := makeLowner args.clientid ownerBytes }]

def lockCaps (ctx : LockCtx) : List Frame :=
  if ctx.args.newOwner ∧ cfg.maxStatesPerClient ≠ 0 ∧ ctx.heldStates ≥ cfg.maxStatesPerClient.toNat then
    [.reply (.status .resource)]
  else if cfg.maxLockSegmentsPerOwner ≠ 0 ∧
      s.locks.countOwner ctx.args.file ctx.lowner ≥ cfg.maxLockSegmentsPerOwner.toNat then [.reply (.status .resource)]
  else if cfg.nativeLocks ctx.args.file.fsid then [.lockBefore ctx]
  else [.lockArbitrate ctx [] 0]

/-- The owner's coverage before the grant, restored if the storage refuses. -/
def lockBefore (ctx : LockCtx) : List Frame :=
  [.lockArbitrate ctx ((s.locks.segments ctx.args.file).filter fun seg => sameOwner seg.owner ctx.lowner) 0]

def lockArbitrate (ctx : LockCtx) (before : List LockSeg) (attempt : Nat) : Shared × List Frame :=
  let out := s.locks.lock ctx.args.file ctx.lowner ctx.args.range ctx.args.exclusive
  ({ s with locks := out.1 },
    match out.2 with
    | none => if cfg.nativeLocks ctx.args.file.fsid then [.lockPush ctx before] else [.lockRemember ctx]
    | some conflict => [.lockConflict ctx before attempt conflict])

/-- `find_lock_owner` on a conflict, as the answer reports it. -/
def deniedBy (conflict : LockConflict) : Answer :=
  match s.lockOwners.find conflict.owner.view with
  | none => .denied { range := conflict.range, exclusive := conflict.exclusive }
  | some holder =>
    .denied { range := conflict.range, exclusive := conflict.exclusive,
              clientid := (s.clients holder.client).clientid, owner := holder.owner }

/-- A courtesy holder is reclaimed and the arbitration repeated; one whose reclaim is running is waited for. -/
def lockConflict (ctx : LockCtx) (before : List LockSeg) (attempt : Nat) (conflict : LockConflict) :
    List Frame :=
  match s.lockOwners.find conflict.owner.view with
  | none => [.reply (s.deniedBy conflict)]
  | some holder =>
    if (s.clients holder.client).courtesy ∧ attempt < 8 then
      [.expireClient (s.clients holder.client).clientid .conflict, .lockArbitrate ctx before (attempt + 1)]
    else if (s.clients holder.client).expired ∧ attempt < 8 then [.lockArbitrate ctx before (attempt + 1)]
    else [.reply (s.deniedBy conflict)]

/-- `push_native_lock`; a refusal names the conflict the storage's own test reports, if any. -/
def lockPush (ctx : LockCtx) (before : List LockSeg) : NativeOutcome → List Frame
  | .granted => [.lockRemember ctx]
  | .failed error => [.lockRestore ctx before, .lockRefused ctx (.status error)]
  | .refused none =>
    [.lockRestore ctx before, .lockRefused ctx (.denied { range := ctx.args.range, exclusive := ctx.args.exclusive })]
  | .refused (some conflict) =>
    [.lockRestore ctx before,
      .lockRefused ctx (if conflict.owner.len > 0 then s.deniedBy conflict
        else .denied { range := conflict.range, exclusive := conflict.exclusive })]

def lockRestore (ctx : LockCtx) (before : List LockSeg) : Shared × List Frame :=
  ({ s with locks := (s.locks.releaseOwner ctx.args.file ctx.lowner).1 }, before.map (.lockRelock ctx))

def lockRelock (ctx : LockCtx) (seg : LockSeg) : Shared :=
  { s with locks := (s.locks.lock ctx.args.file ctx.lowner (toRange seg.start seg.stop) seg.exclusive).1 }

/-- A reclaim refused inside grace is answered DELAY, so that the client keeps trying. -/
def lockRefused (ctx : LockCtx) (answer : Answer) : Shared × List Frame :=
  match answer with
  | .denied _ =>
    if ctx.args.reclaim then
      (s.noteGrace, [.reply (if s.inGrace ctx.args.file.fsid then .status .delay else answer)])
    else (s, [.reply answer])
  | _ => (s, [.reply answer])

def lockRemember (ctx : LockCtx) : Shared × List Frame :=
  ({ s with lockOwners := s.lockOwners.put ctx.lowner.view ⟨ctx.client, ctx.ownerBytes⟩ }, [.lockFile ctx])

/-- The lock state the grant belongs to: the one the request named, or the owner's last live one. -/
def lockRecord (ctx : LockCtx) : Option StateRef :=
  ctx.lockRec.or ((s.fileAt ctx.args.file).locks.filter fun l =>
    !(s.states l).closed && sameOwner (s.states l).lowner ctx.lowner).getLast?

def lockCreate (ctx : LockCtx) : Shared :=
  { s with
    nextState := s.nextState + 1
    gauges := if (s.fileAt ctx.args.file).opens = [] ∧ (s.fileAt ctx.args.file).locks = [] then
        { s.gauges with files := s.gauges.files + 1 }
      else s.gauges
    }.publish
    { other := s.newOther cfg .kLock, type := .kLock, client := ctx.client, fsid := ctx.args.file.fsid,
      oid := ctx.args.file.oid, owner := ctx.ownerBytes, lowner := ctx.lowner, parentOpen := some ctx.openRec }

def bumpSeqid (r : StateRef) : Shared := s.modState r fun rec => { rec with seqid := rec.seqid + 1 }

def lockFile (ctx : LockCtx) : Shared × List Frame :=
  match s.lockRecord ctx with
  | none => (s.lockCreate cfg ctx, [.lockInsert ctx.client s.stateRefs])
  | some l => ((s.touchFile ctx.args.file).bumpSeqid l, [.lockReply l])

def lockInsert (c : ClientRef) (l : StateRef) : Shared × List Frame :=
  ((s.insertState l).tally fun g => { g with locks := g.locks + 1 }, [.lockTrack c l])

def lockTrack (c : ClientRef) (l : StateRef) : Shared × List Frame :=
  s.register cfg c l [.reply (.status .expired)] [.lockReply l]

/-! ### LOCKT and LOCKU -/

def lockt (args : LocktArgs) : List Frame :=
  match s.findClient cfg args.clientid with
  | none => [.reply (.status .staleClientid)]
  | some c => if !(s.clients c).confirmed then [.reply (.status .staleClientid)] else [.locktTest args 0]

def locktTest (args : LocktArgs) (attempt : Nat) : List Frame :=
  match s.locks.test args.file (some (makeLowner args.clientid args.owner)) args.range args.exclusive with
  | none => if cfg.nativeLocks args.file.fsid then [.locktProbe args] else [.reply (.status .ok)]
  | some conflict => [.locktConflict args attempt conflict]

def locktConflict (args : LocktArgs) (attempt : Nat) (conflict : LockConflict) : List Frame :=
  match s.lockOwners.find conflict.owner.view with
  | none => [.reply (s.deniedBy conflict)]
  | some holder =>
    if (s.clients holder.client).courtesy ∧ attempt < 8 then
      [.expireClient (s.clients holder.client).clientid .conflict, .locktTest args (attempt + 1)]
    else [.reply (s.deniedBy conflict)]

/-- The storage is asked unless the owner itself covers part of the range. -/
def locktProbe (args : LocktArgs) (native : NativeOutcome) : List Frame :=
  if (s.locks.segments args.file).any fun seg =>
      sameOwner seg.owner (makeLowner args.clientid args.owner) && seg.overlaps args.range.offset (rangeEnd args.range)
    then [.reply (.status .ok)]
  else
    match native with
    | .failed error => [.reply (.status error)]
    | .refused (some conflict) =>
      [.reply (if conflict.owner.len > 0 then s.deniedBy conflict
        else .denied { range := conflict.range, exclusive := conflict.exclusive })]
    | _ => [.reply (.status .ok)]

def locku (sid : Stateid) (clientid : UInt64) (range : LockRange) (expect : Option FileKey) :
    List Frame :=
  s.lookup cfg sid fun r => .lockuCheck r sid clientid range expect

def lockuCheck (r : StateRef) (sid : Stateid) (clientid : UInt64) (range : LockRange)
    (expect : Option FileKey) : List Frame :=
  if (s.states r).type ≠ .kLock ∨ (s.holder r).clientid ≠ clientid ∨ s.wrongFile r expect then
    [.reply (.status .badStateid)]
  else if s.checkSeqid r sid.seqid ≠ .ok then [.reply (.status (s.checkSeqid r sid.seqid))]
  else [.lockuRange r sid.other range]

def lockuRange (r : StateRef) (range : LockRange) : Shared :=
  { s with locks := s.locks.unlock (s.states r).key (s.states r).lowner range }

end Shared

end LightNfs
