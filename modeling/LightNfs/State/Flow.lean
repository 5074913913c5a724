import LightNfs.State.Change

/-!
# Which frames follow a frame

`Follows` is the control flow of the requests: the frames a section may leave to be executed next, with what
the section read in the tables `t` and left in the tables `u`. Together with `Change` it is everything the
invariants know about the code.
-/

namespace LightNfs

inductive Follows (cfg : Config) (t u : Tables) : Frame → Frame → Prop
  | reply {f : Frame} {answer : Answer} : Follows cfg t u f (.reply answer)
  -- clients and sessions
  | createClient {args : CreateArgs} {c : ClientRef} (hc : t.clientIdx args.clientid = some c) :
      Follows cfg t u (.createSession args) (.createClient c args)
  | createInsert {c : ClientRef} {args : CreateArgs} {nonce : UInt32}
      (hseq : args.sequence = (t.clients c).csSequence) (hnext : u.nextSession = t.nextSession + 1)
      (hconf : (u.clients c).confirmed = true) (hid : ⟨(t.clients c).clientid, t.nextSession, nonce⟩ ∈ (u.clients c).sessions) :
      Follows cfg t u (.createClient c args)
        (.createInsert ⟨(t.clients c).clientid, t.nextSession, nonce⟩ (Shared.newSession cfg c args))
  | createErase {c old : ClientRef} {args : CreateArgs} {id : SessionId} (hold : t.oldIncarnation c = some old)
      (hid : id ∈ (t.clients old).sessions) : Follows cfg t u (.createClient c args) (.eraseSession id)
  | createReap {c old : ClientRef} {args : CreateArgs} {other : StateOther} (hold : t.oldIncarnation c = some old)
      (hother : other ∈ (t.clients old).states) : Follows cfg t u (.createClient c args) (.reapState other)
  | createConfirm {c : ClientRef} {args : CreateArgs} {body : Bytes} (hconf : (u.clients c).confirmed = true) :
      Follows cfg t u (.createClient c args) (.confirmCreateSession args.clientid body)
  | reap {other : StateOther} {r : StateRef} (hr : t.table other = some r) :
      Follows cfg t u (.reapState other) (.unlinkState r false false)
  | confirmClient {clientid : UInt64} {body : Bytes} {c : ClientRef} (hc : t.clientIdx clientid = some c) :
      Follows cfg t u (.confirmCreateSession clientid body) (.confirmClient c clientid body)
  | persistClient {c : ClientRef} {clientid : UInt64} {body : Bytes} :
      Follows cfg t u (.confirmClient c clientid body) (.persistClient c)
  | destroySessionClient {id : SessionId} {connId : UInt64} {c : ClientRef} (hc : t.sessions id = some c)
      (hu : u = t.setSession id none) : Follows cfg t u (.destroySession id connId) (.destroySessionClient c id)
  | destroyClient {clientid : UInt64} {c : ClientRef} (hc : t.clientIdx clientid = some c) :
      Follows cfg t u (.destroyClientid clientid) (.destroyClient c clientid)
  | destroyForget {c : ClientRef} {clientid : UInt64} :
      Follows cfg t u (.destroyClient c clientid) (.forgetLockOwners clientid)
  | reclaimClient {clientid : UInt64} {c : ClientRef} (hc : t.clientIdx clientid = some c) :
      Follows cfg t u (.reclaimComplete clientid) (.reclaimClient c clientid)
  | noteReclaimed {c : ClientRef} {clientid : UInt64} {ownerId : Bytes} :
      Follows cfg t u (.reclaimClient c clientid) (.noteReclaimed ownerId)
  | sequenceWait {args : SequenceArgs} : Follows cfg t u (.sequenceBegin args) (.sequenceBegin args)
  -- leases and expiry
  | scanStart {now : Int} {due : List ClientRef} (hdue : ∀ c ∈ due, ∃ clientid, t.clientIdx clientid = some c) :
      Follows cfg t u .scanLeases (.scanDue now due [])
  | scanNext {now : Int} {c : ClientRef} {due : List ClientRef} {timedOut timedOut' : List UInt64} :
      Follows cfg t u (.scanDue now (c :: due) timedOut) (.scanDue now due timedOut')
  | scanClient {now : Int} {c : ClientRef} {due : List ClientRef} {timedOut : List UInt64} :
      Follows cfg t u (.scanDue now (c :: due) timedOut) (.scanClient now c due timedOut)
  | scanExpire {now : Int} {due : List ClientRef} {timedOut : List UInt64} {clientid : UInt64} :
      Follows cfg t u (.scanDue now due timedOut) (.expireClient clientid .timeout)
  | scanSweep {now : Int} {due : List ClientRef} {timedOut : List UInt64} :
      Follows cfg t u (.scanDue now due timedOut) .sweepRecalls
  | scanDone {now : Int} {c : ClientRef} {due : List ClientRef} {timedOut : List UInt64} :
      Follows cfg t u (.scanClient now c due timedOut) (.scanDue now due timedOut)
  | expireSection {clientid : UInt64} {reason : Reason} {c : ClientRef} (hc : t.clientIdx clientid = some c) :
      Follows cfg t u (.expireClient clientid reason) (.expireSection c clientid reason)
  | expireReap {c : ClientRef} {clientid : UInt64} {reason : Reason} {other : StateOther}
      (hother : other ∈ (t.clients c).states) : Follows cfg t u (.expireSection c clientid reason) (.reapState other)
  | expireErase {c : ClientRef} {clientid : UInt64} {reason : Reason} {id : SessionId}
      (hid : id ∈ (t.clients c).sessions) : Follows cfg t u (.expireSection c clientid reason) (.eraseSession id)
  | expireUnpersist {c : ClientRef} {clientid : UInt64} {reason : Reason} (hexp : (u.clients c).expired = true) :
      Follows cfg t u (.expireSection c clientid reason) (.unpersistClient c)
  | expireForget {c : ClientRef} {clientid : UInt64} {reason : Reason} :
      Follows cfg t u (.expireSection c clientid reason) (.forgetLockOwners clientid)
  -- `unlink_state`
  | unlinkFile {r : StateRef} {fromClient handover : Bool} (hopen : (t.states r).closed = false) (hu : u = t.close r) :
      Follows cfg t u (.unlinkState r fromClient handover) (.unlinkFile r fromClient handover)
  | unlinkLocks {r : StateRef} {fromClient handover : Bool} (htype : (t.states r).type = .kLock) :
      Follows cfg t u (.unlinkFile r fromClient handover) (.unlinkLocks r)
  | unlinkDeleg {r : StateRef} {fromClient handover : Bool} (htype : (t.states r).type = .kDeleg) :
      Follows cfg t u (.unlinkFile r fromClient handover) (.unlinkDeleg r)
  | unlinkDependent {r l : StateRef} {fromClient handover : Bool} (htype : (t.states r).type = .kOpen)
      (hl : l ∈ (t.fileAt (t.states r).key).locks) (hparent : (t.states l).parentOpen = some r) :
      Follows cfg t u (.unlinkFile r fromClient handover) (.unlinkState l fromClient handover)
  | untrackState {r : StateRef} {handover : Bool} : Follows cfg t u (.unlinkFile r true handover) (.untrackState r handover)
  | unpersistFs {r : StateRef} (hper : cfg.perFsidReclaim = true)
      (hlast : (t.clients (t.states r).client).held (t.states r).key.fsid = 1) :
      Follows cfg t u (.untrackState r false)
        (.unpersistFsClient (t.states r).key.fsid (t.clients (t.states r).client).ownerId)
  -- OPEN
  | openClaim {sid : Stateid} {args : OpenArgs} :
      Follows cfg t u (.openDelegCur sid args) (.openState { args with delegClaim := true })
  | openGate {args : OpenArgs} {c : ClientRef} (hc : t.clientIdx args.clientid = some c)
      (hconf : (t.clients c).confirmed = true) : Follows cfg t u (.openState args) (.openGate c args)
  | openGrace {c : ClientRef} {args : OpenArgs} {reclaimDone : Bool} {heldStates : Nat} :
      Follows cfg t u (.openGate c args) (.openGrace c args reclaimDone heldStates)
  | openFirst {c : ClientRef} {args : OpenArgs} {reclaimDone : Bool} {heldStates : Nat} :
      Follows cfg t u (.openGrace c args reclaimDone heldStates) (.openArbitrate c args 0)
  | openExpire {c : ClientRef} {args : OpenArgs} {attempt : Nat} {clientid : UInt64} :
      Follows cfg t u (.openArbitrate c args attempt) (.expireClient clientid .conflict)
  | openRetry {c : ClientRef} {args : OpenArgs} {attempt : Nat} :
      Follows cfg t u (.openArbitrate c args attempt) (.openArbitrate c args (attempt + 1))
  | openRecall {c : ClientRef} {args : OpenArgs} {attempt : Nat} {r : StateRef}
      (hr : r ∈ (t.fileAt args.file).delegs) : Follows cfg t u (.openArbitrate c args attempt) (.startRecall r)
  | openMerged {c : ClientRef} {args : OpenArgs} {attempt : Nat} {r : StateRef} (hr : r ∈ (t.fileAt args.file).opens)
      (hlive : t.Live r) (hclient : (t.states r).client = c) (howner : (t.states r).owner = args.owner) :
      Follows cfg t u (.openArbitrate c args attempt) (.openReply r true)
  | openInsert {c : ClientRef} {args : OpenArgs} {attempt : Nat}
      (hu : u = t.mint.publish (Tables.openView c args (t.newOther cfg .kOpen))) :
      Follows cfg t u (.openArbitrate c args attempt) (.openInsert c t.stateRefs)
  | openTrack {c : ClientRef} {r : StateRef} : Follows cfg t u (.openInsert c r) (.openTrack c r)
  | openReply {c : ClientRef} {r : StateRef} : Follows cfg t u (.openTrack c r) (.openReply r false)
  | trackUndo {f : Frame} {c : ClientRef} {r : StateRef} (hf : f = .openTrack c r ∨ f = .lockTrack c r)
      (hexp : (t.clients c).expired = true) : Follows cfg t u f (.unlinkState r false false)
  | trackPersist {f : Frame} {c : ClientRef} {r : StateRef} (hf : f = .openTrack c r ∨ f = .lockTrack c r)
      (hper : cfg.perFsidReclaim = true) (hexp : (t.clients c).expired = false)
      (hfirst : (t.clients c).held (t.states r).key.fsid = 0) :
      Follows cfg t u f (.persistFsClient (t.states r).key.fsid (t.clients c).ownerId)
  -- delegations
  | grantSession {args : GrantArgs} : Follows cfg t u (.grantReadDeleg args) (.grantSession args)
  | grantFind {args : GrantArgs} {c : ClientRef} (hsession : t.sessions args.session = some c) :
      Follows cfg t u (.grantSession args) (.grantFind args)
  | grantClient {args : GrantArgs} {c : ClientRef} (hc : t.clientIdx args.session.clientid = some c)
      (hexp : (t.clients c).expired = false) : Follows cfg t u (.grantFind args) (.grantClient c args)
  | grantFile {c : ClientRef} {args : GrantArgs} (hu : u = t.mint) :
      Follows cfg t u (.grantClient c args) (.grantFile c (t.newOther cfg .kDeleg) args)
  | grantInsert {c : ClientRef} {other : StateOther} {args : GrantArgs}
      (hu : u = t.publish (Tables.delegView c args other)) :
      Follows cfg t u (.grantFile c other args) (.grantInsert c t.stateRefs)
  | grantTrack {c : ClientRef} {r : StateRef} : Follows cfg t u (.grantInsert c r) (.grantTrack c r)
  | grantCount {c : ClientRef} {r : StateRef} {firstInFs : Bool} :
      Follows cfg t u (.grantTrack c r) (.grantCount c r (t.clients c).expired firstInFs)
  | grantUndo {c : ClientRef} {r : StateRef} {firstInFs : Bool} :
      Follows cfg t u (.grantCount c r true firstInFs) (.unlinkState r false false)
  | grantPersist {c : ClientRef} {r : StateRef} (hper : cfg.perFsidReclaim = true) :
      Follows cfg t u (.grantCount c r false true) (.persistFsClient (t.states r).key.fsid (t.clients c).ownerId)
  | delegreturn {sid : Stateid} {clientid : UInt64} {file : FileKey} {r : StateRef} (hr : t.table sid.other = some r)
      (htype : (t.states r).type = .kDeleg) :
      Follows cfg t u (.delegreturn sid clientid file) (.unlinkState r true false)
  | delegGate {file : FileKey} : Follows cfg t u (.delegRecallNeeded file) (.delegConflict file)
  | delegConflict {file : FileKey} : Follows cfg t u (.delegConflict file) (.delegConflictFile file)
  | delegRecall {file : FileKey} {r : StateRef} (hr : r ∈ (t.fileAt file).delegs) :
      Follows cfg t u (.delegConflictFile file) (.startRecall r)
  | recallRun {r : StateRef} : Follows cfg t u .runRecall (.recallTask r)
  | recallSend {r : StateRef} {c : ClientRef} {sid : Stateid} {fh : Bytes} :
      Follows cfg t u (.recallTask r) (.sendCb c (.recallDeleg r sid fh))
  | notifySend {clientid : UInt64} {owner fh : Bytes} {c : ClientRef} :
      Follows cfg t u (.notifyTask clientid owner fh) (.sendCb c (.notifyLock clientid owner fh))
  | sendScan {c : ClientRef} {cb : Callback} {ids : List SessionId} : Follows cfg t u (.sendCb c cb) (.sendScan cb ids)
  | sendNext {cb : Callback} {ids ids' : List SessionId} : Follows cfg t u (.sendScan cb ids) (.sendScan cb ids')
  | sendFound {cb : Callback} {ids : List SessionId} {id : SessionId} :
      Follows cfg t u (.sendScan cb ids) (.sendClaim id cb)
  | sendCall {id : SessionId} {cb : Callback} {slotSeq : UInt32} {chan : UInt64} :
      Follows cfg t u (.sendClaim id cb) (.sendCall id slotSeq chan cb)
  | sendReply {id : SessionId} {slotSeq : UInt32} {chan : UInt64} {cb : Callback} {sent : Bool} :
      Follows cfg t u (.sendCall id slotSeq chan cb) (.sendReply id sent)
  | sweep {r : StateRef} (hr : r ∈ t.recallWatch) : Follows cfg t u .sweepRecalls (.unlinkState r true false)
  -- CLOSE, OPEN_DOWNGRADE, FREE_STATEID
  | closeCheck {sid : Stateid} {clientid : UInt64} {expect : Option FileKey} {r : StateRef}
      (hr : t.table sid.other = some r) :
      Follows cfg t u (.closeState sid clientid expect) (.closeCheck r sid clientid expect)
  | closeUnlink {r : StateRef} {sid : Stateid} {clientid : UInt64} {expect : Option FileKey} :
      Follows cfg t u (.closeCheck r sid clientid expect) (.unlinkState r true false)
  | closeReply {r : StateRef} {sid : Stateid} {clientid : UInt64} {expect : Option FileKey} :
      Follows cfg t u (.closeCheck r sid clientid expect) (.closeReply r sid.other)
  | downgradeCheck {sid : Stateid} {clientid : UInt64} {access deny : ShareBits} {expect : Option FileKey}
      {r : StateRef} (hr : t.table sid.other = some r) :
      Follows cfg t u (.openDowngrade sid clientid access deny expect) (.downgradeCheck r sid clientid access deny expect)
  | downgradeWrite {r : StateRef} {sid : Stateid} {clientid : UInt64} {access deny : ShareBits}
      {expect : Option FileKey} (htype : (t.states r).type = .kOpen) :
      Follows cfg t u (.downgradeCheck r sid clientid access deny expect) (.downgradeWrite r sid.other access deny)
  | downgradeReply {r : StateRef} {other : StateOther} {access deny : ShareBits} :
      Follows cfg t u (.downgradeWrite r other access deny) (.stateidReply r other)
  | freeCheck {sid : Stateid} {clientid : UInt64} {r : StateRef} (hr : t.table sid.other = some r) :
      Follows cfg t u (.freeStateid sid clientid) (.freeCheck r clientid)
  | freeUnlink {r : StateRef} {clientid : UInt64} (htype : (t.states r).type = .kLock) :
      Follows cfg t u (.freeCheck r clientid) (.unlinkState r true false)
  -- I/O
  | ioAnonymous {sid : Stateid} {clientid : UInt64} {file : FileKey} {need : ShareBits} :
      Follows cfg t u (.checkIo sid clientid file need) (.ioAnonymous file need)
  | ioCheck {sid : Stateid} {clientid : UInt64} {file : FileKey} {need : ShareBits} {r : StateRef}
      (hr : t.table sid.other = some r) :
      Follows cfg t u (.checkIo sid clientid file need) (.ioCheck r sid clientid file need)
  | ioRecall {file : FileKey} {need : ShareBits} {r : StateRef} (hr : r ∈ (t.fileAt file).delegs) :
      Follows cfg t u (.ioAnonymous file need) (.startRecall r)
  -- LOCK
  | lockGate {args : LockArgs} {c : ClientRef} (hc : t.clientIdx args.clientid = some c)
      (hconf : (t.clients c).confirmed = true) : Follows cfg t u (.lock args) (.lockGate c args)
  | lockGrace {c : ClientRef} {args : LockArgs} {reclaimDone : Bool} {heldStates : Nat} :
      Follows cfg t u (.lockGate c args) (.lockGrace c args reclaimDone heldStates)
  | lockState {c : ClientRef} {args : LockArgs} {reclaimDone : Bool} {heldStates : Nat} :
      Follows cfg t u (.lockGrace c args reclaimDone heldStates) (.lockState c args heldStates)
  | lockCheck {c : ClientRef} {args : LockArgs} {heldStates : Nat} {other : StateOther} {r : StateRef}
      (hr : t.table other = some r) : Follows cfg t u (.lockState c args heldStates) (.lockCheck c args heldStates r)
  | lockNamesOpen {c : ClientRef} {args : LockArgs} {heldStates : Nat} {r : StateRef} (hnew : args.newOwner = true)
      (hr : (t.states r).client = c ∧ (t.states r).type = .kOpen ∧ (t.states r).key = args.file)
      (hopen : (t.states r).closed = false) :
      Follows cfg t u (.lockCheck c args heldStates r)
        (.lockCaps { args := args, client := c, heldStates := heldStates, openRec := r, lockRec := none,
                     ownerBytes := args.owner, lowner := makeLowner args.clientid args.owner })
  | lockNamesLock {c : ClientRef} {args : LockArgs} {heldStates : Nat} {r o : StateRef} (hnew : args.newOwner = false)
      (hr : (t.states r).client = c ∧ (t.states r).type = .kLock ∧ (t.states r).key = args.file)
      (hparent : (t.states r).parentOpen = some o) (hopen : (t.states o).closed = false) :
      Follows cfg t u (.lockCheck c args heldStates r)
        (.lockCaps { args := args, client := c, heldStates := heldStates, openRec := o, lockRec := some r,
                     ownerBytes := (t.states r).owner, lowner := makeLowner args.clientid (t.states r).owner })
  | lockBefore {ctx : LockCtx} : Follows cfg t u (.lockCaps ctx) (.lockBefore ctx)
  | lockFirst {f : Frame} {ctx : LockCtx} {before : List LockSeg} (hf : f = .lockCaps ctx ∨ f = .lockBefore ctx) :
      Follows cfg t u f (.lockArbitrate ctx before 0)
  | lockPush {ctx : LockCtx} {before : List LockSeg} {attempt : Nat}
      (hgranted : (t.locks.lock ctx.args.file ctx.lowner ctx.args.range ctx.args.exclusive).2 = none) :
      Follows cfg t u (.lockArbitrate ctx before attempt) (.lockPush ctx before)
  | lockGranted {ctx : LockCtx} {before : List LockSeg} {attempt : Nat}
      (hgranted : (t.locks.lock ctx.args.file ctx.lowner ctx.args.range ctx.args.exclusive).2 = none) :
      Follows cfg t u (.lockArbitrate ctx before attempt) (.lockRemember ctx)
  | lockConflict {ctx : LockCtx} {before : List LockSeg} {attempt : Nat} {conflict : LockConflict} :
      Follows cfg t u (.lockArbitrate ctx before attempt) (.lockConflict ctx before attempt conflict)
  | lockExpire {ctx : LockCtx} {before : List LockSeg} {attempt : Nat} {conflict : LockConflict} {clientid : UInt64} :
      Follows cfg t u (.lockConflict ctx before attempt conflict) (.expireClient clientid .conflict)
  | lockRetry {ctx : LockCtx} {before : List LockSeg} {attempt : Nat} {conflict : LockConflict} :
      Follows cfg t u (.lockConflict ctx before attempt conflict) (.lockArbitrate ctx before (attempt + 1))
  | lockPushed {ctx : LockCtx} {before : List LockSeg} : Follows cfg t u (.lockPush ctx before) (.lockRemember ctx)
  | lockRestore {ctx : LockCtx} {before : List LockSeg} : Follows cfg t u (.lockPush ctx before) (.lockRestore ctx before)
  | lockRefused {ctx : LockCtx} {before : List LockSeg} {answer : Answer} :
      Follows cfg t u (.lockPush ctx before) (.lockRefused ctx answer)
  | lockRelock {ctx : LockCtx} {before : List LockSeg} {seg : LockSeg} (hseg : seg ∈ before) :
      Follows cfg t u (.lockRestore ctx before) (.lockRelock ctx seg)
  | lockFile {ctx : LockCtx} : Follows cfg t u (.lockRemember ctx) (.lockFile ctx)
  | lockInsert {ctx : LockCtx} (hu : u = t.mint.publish (Tables.lockView ctx (t.newOther cfg .kLock))) :
      Follows cfg t u (.lockFile ctx) (.lockInsert ctx.client t.stateRefs)
  | lockReused {ctx : LockCtx} {l : StateRef}
      (hl : ctx.lockRec = some l ∨ ctx.lockRec = none ∧ l ∈ (t.fileAt ctx.args.file).locks ∧
        (t.states l).closed = false ∧ sameOwner (t.states l).lowner ctx.lowner = true) :
      Follows cfg t u (.lockFile ctx) (.lockReply l)
  | lockTrack {c : ClientRef} {l : StateRef} : Follows cfg t u (.lockInsert c l) (.lockTrack c l)
  | lockReply {c : ClientRef} {l : StateRef} : Follows cfg t u (.lockTrack c l) (.lockReply l)
  -- LOCKT and LOCKU
  | locktTest {args : LocktArgs} : Follows cfg t u (.lockt args) (.locktTest args 0)
  | locktProbe {args : LocktArgs} {attempt : Nat} : Follows cfg t u (.locktTest args attempt) (.locktProbe args)
  | locktConflict {args : LocktArgs} {attempt : Nat} {conflict : LockConflict} :
      Follows cfg t u (.locktTest args attempt) (.locktConflict args attempt conflict)
  | locktExpire {args : LocktArgs} {attempt : Nat} {conflict : LockConflict} {clientid : UInt64} :
      Follows cfg t u (.locktConflict args attempt conflict) (.expireClient clientid .conflict)
  | locktRetry {args : LocktArgs} {attempt : Nat} {conflict : LockConflict} :
      Follows cfg t u (.locktConflict args attempt conflict) (.locktTest args (attempt + 1))
  | lockuCheck {sid : Stateid} {clientid : UInt64} {range : LockRange} {expect : Option FileKey} {r : StateRef}
      (hr : t.table sid.other = some r) :
      Follows cfg t u (.locku sid clientid range expect) (.lockuCheck r sid clientid range expect)
  | lockuRange {r : StateRef} {sid : Stateid} {clientid : UInt64} {range : LockRange} {expect : Option FileKey}
      (htype : (t.states r).type = .kLock) :
      Follows cfg t u (.lockuCheck r sid clientid range expect) (.lockuRange r sid.other range)
  | lockuBump {r : StateRef} {other : StateOther} {range : LockRange} :
      Follows cfg t u (.lockuRange r other range) (.lockuBump r other)
  | lockuReply {r : StateRef} {other : StateOther} : Follows cfg t u (.lockuBump r other) (.stateidReply r other)
  -- the release of an export
  | releaseStart {fsid : UInt32} : Follows cfg t u (.releaseFsid fsid) (.releaseScan fsid 0 [])
  | releaseScan {fsid : UInt32} {shard : Nat} {victims found : List StateRef}
      (hfound : ∀ r ∈ found, ∃ other, t.table other = some r) :
      Follows cfg t u (.releaseScan fsid shard victims) (.releaseScan fsid (shard + 1) (victims ++ found))
  | releaseFound {fsid : UInt32} {shard : Nat} {until_ : Int} {victims : List StateRef} :
      Follows cfg t u (.releaseScan fsid shard victims) (.releaseVictims fsid until_ victims)
  | releaseNext {fsid : UInt32} {until_ : Int} {r : StateRef} {victims : List StateRef} :
      Follows cfg t u (.releaseVictims fsid until_ (r :: victims)) (.releaseVictims fsid until_ victims)
  | releaseUnlink {fsid : UInt32} {until_ : Int} {r : StateRef} {victims : List StateRef} :
      Follows cfg t u (.releaseVictims fsid until_ (r :: victims)) (.unlinkState r true true)
  | releaseEnd {fsid : UInt32} {until_ : Int} {victims : List StateRef} :
      Follows cfg t u (.releaseVictims fsid until_ victims) (.endGrace fsid)

def Flow (cfg : Config) (t u : Tables) (f : Frame) (fs : List Frame) : Prop := ∀ g ∈ fs, Follows cfg t u f g

namespace Flow

variable {cfg : Config} {t u : Tables} {f g : Frame} {fs gs : List Frame}

theorem nil : Flow cfg t u f [] := List.forall_mem_nil _

theorem cons (hg : Follows cfg t u f g) (hgs : Flow cfg t u f gs) : Flow cfg t u f (g :: gs) :=
  List.forall_mem_cons.mpr ⟨hg, hgs⟩

theorem one (hg : Follows cfg t u f g) : Flow cfg t u f [g] := cons hg nil

theorem append (hfs : Flow cfg t u f fs) (hgs : Flow cfg t u f gs) : Flow cfg t u f (fs ++ gs) :=
  List.forall_mem_append.mpr ⟨hfs, hgs⟩

theorem map {α : Type} {l : List α} {next : α → Frame} (h : ∀ x ∈ l, Follows cfg t u f (next x)) :
    Flow cfg t u f (l.map next) := List.forall_mem_map.mpr h

theorem reply (answer : Answer) : Flow cfg t u f [.reply answer] := one .reply

end Flow

theorem Tables.nextSession_retireOld (cfg : Config) (t : Tables) (c : ClientRef) :
    (t.retireOld cfg c).nextSession = t.nextSession := by
  unfold Tables.retireOld
  split <;> rfl

namespace Shared

variable {cfg : Config} {s : Shared} {u : Tables}

theorem clientIdx_of_findClient {clientid : UInt64} {c : ClientRef} (hc : s.findClient cfg clientid = some c) :
    s.tables.clientIdx clientid = some c := by
  unfold findClient at hc
  split at hc
  · exact absurd hc (by simp)
  · exact hc

theorem flow_find {f : Frame} {clientid : UInt64} {found : ClientRef → List Frame} {missing : List Frame}
    (hmissing : Flow cfg s.tables u f missing)
    (hfound : ∀ c, s.tables.clientIdx clientid = some c → Flow cfg s.tables u f (found c)) :
    Flow cfg s.tables u f (match s.findClient cfg clientid with
      | none => missing
      | some c => found c) := by
  split
  · exact hmissing
  · rename_i c hc
    exact hfound c (clientIdx_of_findClient hc)

variable (r : StateRef) (sid : Stateid) (clientid : UInt64)

theorem flow_lookup {f : Frame} {next : StateRef → Frame}
    (hnext : ∀ r, s.tables.table sid.other = some r → Follows cfg s.tables u f (next r)) :
    Flow cfg s.tables u f (s.lookup cfg sid next) := by
  unfold lookup
  split
  · exact .reply _
  · split
    · exact .reply _
    · split
      · exact .reply _
      · rename_i r hr
        exact .one (hnext r hr)

/-! ### Clients and sessions -/

theorem flow_exchangeId (args : ExchangeArgs) :
    Flow cfg s.tables u (.exchangeId args) (s.exchangeId cfg args).2 := by
  have hregister : ∀ (s' : Shared) (slot : OwnerSlot),
      Flow cfg s.tables u (.exchangeId args) (s'.registerClient cfg args slot).2 := by
    intro s' slot
    unfold registerClient
    split
    · exact .reply _
    · exact .reply _
  unfold exchangeId
  dsimp only
  split
  · split
    · exact .reply _
    · exact hregister _ _
  · split_ifs
    · exact .reply _
    · exact .reply _
    · exact .reply _
    · exact .reply _
    · exact hregister _ _
    · exact .reply _
    · exact hregister _ _

theorem flow_createSession (args : CreateArgs) :
    Flow cfg s.tables u (.createSession args) (s.createSession cfg args) := by
  unfold createSession
  split
  · exact .reply _
  · split
    · exact .reply _
    · exact flow_find (.reply _) fun c hc => .one (.createClient hc)

theorem flow_acceptedFrames {c : ClientRef} (args : CreateArgs) (nonce : UInt32) {old : Option ClientRef}
    (hold : ∀ o, old = some o → s.oldIncarnation c = some o) (hseq : args.sequence = (s.clients c).csSequence)
    (hnext : u.nextSession = s.nextSession + 1) (hconf : (u.clients c).confirmed = true)
    (hid : s.newSessionId c nonce ∈ (u.clients c).sessions) :
    Flow cfg s.tables u (.createClient c args) (s.acceptedFrames cfg c args nonce old) := by
  refine .cons (.createInsert hseq hnext hconf hid) (.append (.map fun id hid => ?_) (.append (.map fun other hother => ?_) ?_))
  · cases old with
    | none => exact absurd hid List.not_mem_nil
    | some o => exact .createErase (hold o rfl) hid
  · cases old with
    | none => exact absurd hother List.not_mem_nil
    | some o => exact .createReap (hold o rfl) hother
  · exact .cons (.createConfirm hconf) (.reply _)

variable (c : ClientRef) (other : StateOther) (args : GrantArgs)

theorem flow_createClient (args : CreateArgs) (nonce : UInt32) :
    Flow cfg s.tables (s.createClient cfg c args nonce).1.tables (.createClient c args)
      (s.createClient cfg c args nonce).2 := by
  unfold createClient
  dsimp only
  split_ifs
  · exact .reply _
  · exact .reply _
  · exact .reply _
  · rename_i hseq hconf
    rw [tables_addSession]
    refine flow_acceptedFrames args nonce (fun o ho => absurd ho (by simp)) (not_not.mp hseq) rfl ?_ ?_
    · have hconf' : (s.tables.clients c).confirmed = true := hconf
      simp [Tables.addSession, Tables.setClient, hconf']
    · simp [Tables.addSession, Tables.setClient]
  · rename_i hseq hconf
    rw [tables_addSession, tables_confirmIncarnation]
    refine flow_acceptedFrames args nonce (fun o ho => ho) (not_not.mp hseq) ?_ ?_ ?_
    · simp only [Tables.addSession, Tables.setClient, Tables.confirmIncarnation, Tables.setSlot,
        Tables.nextSession_retireOld]
      rfl
    · simp [Tables.addSession, Tables.setClient, Tables.confirmIncarnation]
    · simp [Tables.addSession, Tables.setClient]

theorem flow_reapState : Flow cfg s.tables u (.reapState other) (s.reapState other) := by
  unfold reapState
  split
  · exact .nil
  · rename_i r hr
    exact .one (.reap hr)

theorem flow_confirmClient (clientid : UInt64) (reply : Bytes) :
    Flow cfg s.tables u (.confirmClient c clientid reply) (s.confirmClient cfg c clientid reply).2 := by
  unfold confirmClient
  split
  · exact .nil
  · dsimp only
    split
    · exact .nil
    · exact .one .persistClient

theorem flow_destroySession (id : SessionId) (connId : UInt64) :
    Flow cfg s.tables (s.destroySession id connId).1.tables (.destroySession id connId) (s.destroySession id connId).2 := by
  unfold destroySession
  split
  · exact .reply _
  · rename_i session hfind
    split
    · exact .one (.destroySessionClient (by simp [tables, hfind]) (tables_eraseSession s id))
    · exact .reply _

theorem flow_destroyClient (clientid : UInt64) :
    Flow cfg s.tables u (.destroyClient c clientid) (s.destroyClient cfg c clientid).2 := by
  unfold destroyClient
  dsimp only
  split_ifs
  · exact .reply _
  · exact .reply _
  · exact .cons .destroyForget (.reply _)

theorem flow_modSession {f : Frame} (id : SessionId) (g : SessionRec → SessionRec) :
    Flow cfg s.tables u f (s.modSession id g).2 := by
  unfold modSession
  split
  · exact .reply _
  · exact .reply _

theorem flow_reclaimClient (clientid : UInt64) :
    Flow cfg s.tables u (.reclaimClient c clientid) (s.reclaimClient cfg c clientid).2 := by
  unfold reclaimClient
  dsimp only
  split
  · exact .reply _
  · split
    · exact .reply _
    · exact .cons .noteReclaimed (.reply _)

theorem flow_sequenceBegin (args : SequenceArgs) :
    Flow cfg s.tables u (.sequenceBegin args) (s.sequenceBegin cfg args).2 := by
  unfold sequenceBegin
  split
  · exact .reply _
  · split
    · exact .reply _
    · dsimp only
      split
      · exact .reply _
      · split
        · exact .reply _
        · split
          · exact .one .sequenceWait
          · exact .reply _
          · exact .reply _
          · exact .reply _
          · exact .reply _

/-! ### Leases and expiry -/

theorem clientIdx_of_popDue (now : Int) (heap : List (Int × UInt64)) :
    ∀ c ∈ (popDue now heap s).2, ∃ clientid, s.tables.clientIdx clientid = some c := by
  induction heap generalizing s with
  | nil => simp [popDue]
  | cons entry rest ih =>
    unfold popDue
    split
    · split
      · exact ih
      · rename_i c hc
        split
        · exact ih
        · have hrest := ih (s := s.modClient c fun client => { client with leaseHeapDeadline := -1 })
          intro c' hc'
          rcases List.mem_cons.mp hc' with rfl | hc'
          · exact ⟨_, hc⟩
          · exact hrest c' hc'
    · simp

theorem flow_scanDue (now : Int) (due : List ClientRef) (timedOut : List UInt64) :
    Flow cfg s.tables u (.scanDue now due timedOut) (s.scanDue cfg now due timedOut).2 := by
  unfold scanDue
  cases due with
  | nil => exact .append (.map fun _ _ => .scanExpire) (.one .scanSweep)
  | cons c rest =>
    dsimp only
    split_ifs
    · exact .one .scanNext
    · exact .one .scanNext
    · exact .one .scanNext
    · exact .one .scanNext
    · exact .one .scanClient

theorem flow_expireSection (clientid : UInt64) (reason : Reason) :
    Flow cfg s.tables (s.expireSection cfg c clientid).1.tables (.expireSection c clientid reason)
      (s.expireSection cfg c clientid).2 := by
  unfold expireSection
  dsimp only
  split
  · exact .nil
  · rw [tables_unindex, tables_clearSlot, tables_retire]
    refine .append (.map fun other hother => .expireReap hother) (.append (.map fun id hid => .expireErase hid) ?_)
    refine .cons (.expireUnpersist ?_) (.one .expireForget)
    simp [Tables.unindex, Tables.clearSlot, Tables.setSlot, Tables.retire, Tables.setClient]

/-! ### Unlinking and registering -/

theorem flow_unlinkState (fromClient handover : Bool) :
    Flow cfg s.tables (s.unlinkState r fromClient handover).1.tables (.unlinkState r fromClient handover)
      (s.unlinkState r fromClient handover).2 := by
  cases hclosed : (s.states r).closed with
  | true =>
    simp only [unlinkState, hclosed, if_true]
    exact .nil
  | false =>
    rw [tables_unlinkState s hclosed]
    simp only [unlinkState, hclosed, Bool.false_eq_true, if_false]
    exact .one (.unlinkFile hclosed rfl)

theorem flow_unlinkFile (fromClient handover : Bool) :
    Flow cfg s.tables u (.unlinkFile r fromClient handover) (s.unlinkFile r fromClient handover).2 := by
  refine .append ?_ (.append (.map fun l hl => ?_) ?_)
  · cases htype : (s.states r).type with
    | kOpen => exact .nil
    | kLock => exact .one (.unlinkLocks htype)
    | kDeleg => exact .one (.unlinkDeleg htype)
  · unfold dependents at hl
    split at hl
    · rename_i htype
      rw [← fileAt_tables] at hl
      obtain ⟨hmem, hparent⟩ := List.mem_filter.mp hl
      exact .unlinkDependent htype hmem (of_decide_eq_true hparent)
    · exact absurd hl List.not_mem_nil
  · cases fromClient with
    | true => exact .one .untrackState
    | false => exact .nil

theorem flow_untrackState (handover : Bool) :
    Flow cfg s.tables u (.untrackState r handover) (s.untrackState cfg r handover).2 := by
  unfold untrackState
  dsimp only
  split
  · rename_i hlast
    obtain ⟨hheld, hper, hhandover⟩ := hlast
    obtain rfl : handover = false := by simpa using hhandover
    exact .one (.unpersistFs hper hheld)
  · exact .nil

theorem flow_register {f : Frame} {c : ClientRef} {r : StateRef} (hf : f = .openTrack c r ∨ f = .lockTrack c r)
    {refused accepted : List Frame} (hrefused : Flow cfg s.tables u f refused)
    (haccepted : Flow cfg s.tables u f accepted) :
    Flow cfg s.tables u f (s.register cfg c r refused accepted).2 := by
  unfold register
  split
  · rename_i hexp
    exact .cons (.trackUndo hf hexp) hrefused
  · rename_i hexp
    dsimp only
    split
    · rename_i hfirst
      exact .cons (.trackPersist hf hfirst.2 (Bool.not_eq_true _ ▸ hexp) hfirst.1) haccepted
    · exact haccepted

/-! ### OPEN -/

theorem flow_openState (args : OpenArgs) : Flow cfg s.tables u (.openState args) (s.openState cfg args) := by
  refine flow_find (.reply _) fun c hc => ?_
  split
  · exact .reply _
  · rename_i hconf
    split
    · exact .reply _
    · rw [Bool.not_eq_true', Bool.not_eq_false] at hconf
      exact .one (.openGate hc hconf)

theorem flow_openGrace (args : OpenArgs) (reclaimDone : Bool) (heldStates : Nat) :
    Flow cfg s.tables u (.openGrace c args reclaimDone heldStates)
      (s.openGrace cfg c args reclaimDone heldStates) := by
  unfold openGrace
  split_ifs
  · exact .reply _
  · exact .reply _
  · exact .reply _
  · exact .reply _
  · exact .reply _
  · exact .one .openFirst

theorem mem_delegs_of_liveDelegs {file : FileKey} {r : StateRef} (hr : r ∈ s.liveDelegs file) :
    r ∈ (s.tables.fileAt file).delegs := by
  rw [fileAt_tables]
  exact List.mem_of_mem_filter hr

theorem flow_openArbitrate (args : OpenArgs) (attempt : Nat) :
    Flow cfg s.tables (s.openArbitrate cfg c args attempt).1.tables (.openArbitrate c args attempt)
      (s.openArbitrate cfg c args attempt).2 := by
  unfold openArbitrate
  dsimp only
  split
  · dsimp only
    split
    · exact .reply _
    · exact .cons .openExpire (.one .openRetry)
  · rename_i hcourtesy
    split
    · exact .reply _
    · rename_i hdenied
      split
      · exact .append (.map fun r hr => .openRecall (mem_delegs_of_liveDelegs hr)) (.reply _)
      · split
        · rename_i r hr
          obtain ⟨-, hmine, -⟩ := arbitrate_granted (Bool.eq_false_iff.mpr hdenied) hcourtesy
          obtain ⟨hmem, hlive, hclient, howner⟩ := (hmine r hr).resolve_left (by simp)
          rw [← fileAt_tables] at hmem
          exact .one (.openMerged hmem hlive hclient howner)
        · rw [tables_openCreate]
          exact .one (.openInsert rfl)

/-! ### Delegations -/

theorem flow_grantReadDeleg :
    Flow cfg s.tables u (.grantReadDeleg args) (s.grantReadDeleg cfg args).2 := by
  unfold grantReadDeleg
  split
  · exact .reply _
  · dsimp only
    split
    · exact .reply _
    · exact .one .grantSession

theorem flow_grantSession :
    Flow cfg s.tables u (.grantSession args) (s.grantSession args) := by
  unfold grantSession
  split
  · exact .reply _
  · rename_i session hfind
    split
    · exact .one (.grantFind (c := session.client) (by simp [tables, hfind]))
    · exact .reply _

theorem flow_grantFind : Flow cfg s.tables u (.grantFind args) (s.grantFind cfg args) := by
  refine flow_find (.reply _) fun c hc => ?_
  split
  · exact .reply _
  · rename_i hexp
    exact .one (.grantClient hc (Bool.eq_false_iff.mpr hexp))

theorem flow_grantClient :
    Flow cfg s.tables (s.grantClient cfg c args).1.tables (.grantClient c args) (s.grantClient cfg c args).2 := by
  unfold grantClient
  split
  · exact .reply _
  · exact .one (.grantFile rfl)

theorem flow_grantFile :
    Flow cfg s.tables (s.grantFile c other args).1.tables (.grantFile c other args)
      (s.grantFile c other args).2 := by
  unfold grantFile
  split
  · exact .reply _
  · rw [tables_publish]
    exact .one (.grantInsert rfl)

theorem flow_grantTrack (r : StateRef) :
    Flow cfg s.tables u (.grantTrack c r) (s.grantTrack c r).2 := by
  have hcount : ∀ dead firstInFs, (s.clients c).expired = dead →
      Flow cfg s.tables u (.grantTrack c r) [.grantCount c r dead firstInFs] := by
    intro dead firstInFs hdead
    subst hdead
    exact .one .grantCount
  unfold grantTrack
  split
  · rename_i hexp
    exact hcount true _ hexp
  · rename_i hexp
    exact hcount false _ (Bool.eq_false_iff.mpr hexp)

theorem flow_grantCount (r : StateRef) (dead firstInFs : Bool) :
    Flow cfg s.tables u (.grantCount c r dead firstInFs) (s.grantCount cfg c r dead firstInFs).2 := by
  unfold grantCount
  dsimp only
  split
  · rename_i hdead
    subst hdead
    exact .cons .grantUndo (.reply _)
  · rename_i hdead
    obtain rfl : dead = false := by simpa using hdead
    refine .append ?_ (.reply _)
    split
    · rename_i hfirst
      obtain ⟨hfirst, hper⟩ := hfirst
      subst hfirst
      exact .one (.grantPersist hper)
    · exact .nil

theorem flow_delegreturn (file : FileKey) :
    Flow cfg s.tables u (.delegreturn sid clientid file) (s.delegreturn cfg sid clientid file) := by
  unfold delegreturn
  split
  · exact .reply _
  · split
    · exact .reply _
    · rename_i r hr
      split
      · exact .reply _
      · rename_i hok
        have htype : (s.states r).type = .kDeleg := by
          by_contra hne
          exact hok (Or.inl hne)
        exact .cons (.delegreturn hr htype) (.reply _)

theorem flow_openDelegCur (args : OpenArgs) :
    Flow cfg s.tables u (.openDelegCur sid args) (s.openDelegCur cfg sid args) := by
  unfold openDelegCur
  split
  · exact .reply _
  · split
    · exact .reply _
    · split
      · exact .reply _
      · exact .one .openClaim

theorem flow_delegRecallNeeded (file : FileKey) :
    Flow cfg s.tables u (.delegRecallNeeded file) (s.delegRecallNeeded file) := by
  unfold delegRecallNeeded
  split
  · exact .one .delegGate
  · exact .reply _

theorem flow_delegConflict (file : FileKey) : Flow cfg s.tables u (.delegConflict file) (s.delegConflict file) := by
  unfold delegConflict
  split
  · exact .reply _
  · exact .one .delegConflict

theorem flow_delegConflictFile (file : FileKey) :
    Flow cfg s.tables u (.delegConflictFile file) (s.delegConflictFile file) := by
  unfold delegConflictFile
  split
  · exact .reply _
  · exact .append (.map fun r hr => .delegRecall (mem_delegs_of_liveDelegs hr)) (.reply _)

theorem flow_sweepRecalls : Flow cfg s.tables u .sweepRecalls s.sweepRecalls.2 :=
  .map fun _ hr => .sweep (List.mem_of_mem_filter (List.mem_of_mem_filter hr))

theorem flow_runRecall : Flow cfg s.tables u .runRecall s.runRecall.2 := by
  unfold runRecall
  split
  · exact .nil
  · exact .one .recallRun

theorem flow_notifyTask (owner fh : Bytes) :
    Flow cfg s.tables u (.notifyTask clientid owner fh) (s.notifyTask cfg clientid owner fh) := by
  unfold notifyTask
  split
  · exact .nil
  · split
    · exact .nil
    · exact .one .notifySend

theorem flow_sendScan (cb : Callback) (ids : List SessionId) :
    Flow cfg s.tables u (.sendScan cb ids) (s.sendScan cb ids) := by
  unfold sendScan
  split
  · exact .nil
  · split
    · exact .one .sendFound
    · exact .one .sendNext

theorem flow_sendClaim (id : SessionId) (cb : Callback) :
    Flow cfg s.tables u (.sendClaim id cb) (s.sendClaim cfg id cb).2 := by
  unfold sendClaim
  split
  · exact .nil
  · split
    · exact .nil
    · split
      · exact .nil
      · split
        · split <;> exact .nil
        · exact .one .sendCall

theorem flow_sendCall (id : SessionId) (slotSeq : UInt32) (chan : UInt64) (cb : Callback) :
    Flow cfg s.tables u (.sendCall id slotSeq chan cb) (s.sendCall id slotSeq chan cb).2 := by
  unfold sendCall
  split <;> exact .one .sendReply

/-! ### CLOSE, OPEN_DOWNGRADE, FREE_STATEID -/

theorem flow_closeCheck (expect : Option FileKey) :
    Flow cfg s.tables u (.closeCheck r sid clientid expect) (s.closeCheck r sid clientid expect) := by
  unfold closeCheck
  split
  · exact .reply _
  · split
    · exact .reply _
    · exact .cons .closeUnlink (.one .closeReply)

theorem flow_downgradeCheck (access deny : ShareBits)
    (expect : Option FileKey) :
    Flow cfg s.tables u (.downgradeCheck r sid clientid access deny expect)
      (s.downgradeCheck r sid clientid access deny expect) := by
  unfold downgradeCheck
  split
  · exact .reply _
  · rename_i hrec
    split
    · exact .reply _
    · split
      · exact .reply _
      · push Not at hrec
        exact .one (.downgradeWrite hrec.2.1)

theorem flow_freeCheck :
    Flow cfg s.tables u (.freeCheck r clientid) (s.freeCheck r clientid) := by
  unfold freeCheck
  split
  · exact .reply _
  · split
    · exact .reply _
    · rename_i htype
      split
      · exact .reply _
      · exact .cons (.freeUnlink (not_not.mp htype)) (.reply _)

theorem flow_checkIo (file : FileKey) (need : ShareBits) :
    Flow cfg s.tables u (.checkIo sid clientid file need) (s.checkIo cfg sid clientid file need).2 := by
  unfold checkIo
  split
  · dsimp only
    split_ifs
    · exact .reply _
    · exact .reply _
    · exact .one .ioAnonymous
  · exact flow_lookup sid fun r hr => .ioCheck hr

theorem flow_ioAnonymous (file : FileKey) (need : ShareBits) :
    Flow cfg s.tables u (.ioAnonymous file need) (s.ioAnonymous file need) := by
  unfold ioAnonymous
  split_ifs
  · exact .reply _
  · exact .append (.map fun r hr => .ioRecall (mem_delegs_of_liveDelegs hr)) (.reply _)
  · exact .reply _

theorem flow_ioCheck (file : FileKey) (need : ShareBits) :
    Flow cfg s.tables u (.ioCheck r sid clientid file need) (s.ioCheck r sid clientid file need) := by
  unfold ioCheck
  split_ifs <;> exact .reply _

/-! ### LOCK -/

theorem flow_lock (args : LockArgs) : Flow cfg s.tables u (.lock args) (s.lock cfg args) := by
  refine flow_find (.reply _) fun c hc => ?_
  split
  · exact .reply _
  · rename_i hconf
    split
    · exact .reply _
    · rw [Bool.not_eq_true', Bool.not_eq_false] at hconf
      exact .one (.lockGate hc hconf)

theorem flow_lockGrace (args : LockArgs) (reclaimDone : Bool) (heldStates : Nat) :
    Flow cfg s.tables u (.lockGrace c args reclaimDone heldStates) (s.lockGrace c args reclaimDone heldStates) := by
  unfold lockGrace
  split_ifs
  · exact .reply _
  · exact .reply _
  · exact .reply _
  · exact .one .lockState

theorem flow_lockCheck (args : LockArgs) (heldStates : Nat) (r : StateRef) :
    Flow cfg s.tables u (.lockCheck c args heldStates r) (s.lockCheck c args heldStates r) := by
  unfold lockCheck
  dsimp only
  generalize (if args.exclusive then kShareWrite else kShareRead) = need
  -- the record the request names decides what its anchor is
  cases hnew : args.newOwner with
  | true =>
    simp only [anchor, hnew, if_true]
    split_ifs with hrec hseqid hcovered
    · exact .reply _
    · exact .reply _
    · exact .reply _
    · push Not at hrec hcovered
      obtain ⟨htype, hclient, hkey⟩ := hrec
      exact .one (.lockNamesOpen hnew ⟨hclient, htype, hkey⟩ (Bool.eq_false_iff.mpr hcovered.1))
  | false =>
    simp only [anchor, hnew, Bool.false_eq_true, if_false]
    split_ifs with hrec
    · exact .reply _
    · exact .reply _
    · push Not at hrec
      obtain ⟨htype, hclient, hkey⟩ := hrec
      split
      · exact .reply _
      · rename_i o hparent
        split
        · exact .reply _
        · rename_i hcovered
          push Not at hcovered
          exact .one (.lockNamesLock hnew ⟨hclient, htype, hkey⟩ hparent (Bool.eq_false_iff.mpr hcovered.1))

theorem flow_lockCaps (ctx : LockCtx) : Flow cfg s.tables u (.lockCaps ctx) (s.lockCaps cfg ctx) := by
  unfold lockCaps
  split_ifs
  · exact .reply _
  · exact .reply _
  · exact .one .lockBefore
  · exact .one (.lockFirst (Or.inl rfl))

theorem flow_lockArbitrate (ctx : LockCtx) (before : List LockSeg) (attempt : Nat) :
    Flow cfg s.tables u (.lockArbitrate ctx before attempt) (s.lockArbitrate cfg ctx before attempt).2 := by
  unfold lockArbitrate
  dsimp only
  split
  · rename_i hgranted
    split
    · exact .one (.lockPush hgranted)
    · exact .one (.lockGranted hgranted)
  · exact .one .lockConflict

theorem flow_lockConflict (ctx : LockCtx) (before : List LockSeg) (attempt : Nat) (conflict : LockConflict) :
    Flow cfg s.tables u (.lockConflict ctx before attempt conflict) (s.lockConflict ctx before attempt conflict) := by
  unfold lockConflict
  split
  · exact .reply _
  · split_ifs
    · exact .cons .lockExpire (.one .lockRetry)
    · exact .one .lockRetry
    · exact .reply _

theorem flow_lockPush (ctx : LockCtx) (before : List LockSeg) (native : NativeOutcome) :
    Flow cfg s.tables u (.lockPush ctx before) (s.lockPush ctx before native) := by
  unfold lockPush
  split
  · exact .one .lockPushed
  · exact .cons .lockRestore (.one .lockRefused)
  · exact .cons .lockRestore (.one .lockRefused)
  · exact .cons .lockRestore (.one .lockRefused)

theorem flow_lockRefused (ctx : LockCtx) (answer : Answer) :
    Flow cfg s.tables u (.lockRefused ctx answer) (s.lockRefused ctx answer).2 := by
  unfold lockRefused
  split
  · split
    · exact .reply _
    · exact .reply _
  · exact .reply _

theorem flow_lockFile (ctx : LockCtx) :
    Flow cfg s.tables (s.lockFile cfg ctx).1.tables (.lockFile ctx) (s.lockFile cfg ctx).2 := by
  unfold lockFile
  split
  · rw [tables_lockCreate]
    exact .one (.lockInsert rfl)
  · rename_i l hl
    exact .one (.lockReused (lockRecord_some hl))

/-! ### LOCKT, LOCKU and the release of an export -/

theorem flow_lockt (args : LocktArgs) : Flow cfg s.tables u (.lockt args) (s.lockt cfg args) := by
  unfold lockt
  split
  · exact .reply _
  · split
    · exact .reply _
    · exact .one .locktTest

theorem flow_locktTest (args : LocktArgs) (attempt : Nat) :
    Flow cfg s.tables u (.locktTest args attempt) (s.locktTest cfg args attempt) := by
  unfold locktTest
  split
  · split
    · exact .one .locktProbe
    · exact .reply _
  · exact .one .locktConflict

theorem flow_locktConflict (args : LocktArgs) (attempt : Nat) (conflict : LockConflict) :
    Flow cfg s.tables u (.locktConflict args attempt conflict) (s.locktConflict args attempt conflict) := by
  unfold locktConflict
  split
  · exact .reply _
  · split
    · exact .cons .locktExpire (.one .locktRetry)
    · exact .reply _

theorem flow_locktProbe (args : LocktArgs) (native : NativeOutcome) :
    Flow cfg s.tables u (.locktProbe args) (s.locktProbe args native) := by
  unfold locktProbe
  split
  · exact .reply _
  · split
    · exact .reply _
    · exact .reply _
    · exact .reply _

theorem flow_lockuCheck (range : LockRange)
    (expect : Option FileKey) :
    Flow cfg s.tables u (.lockuCheck r sid clientid range expect) (s.lockuCheck r sid clientid range expect) := by
  unfold lockuCheck
  split
  · exact .reply _
  · rename_i hrec
    split
    · exact .reply _
    · push Not at hrec
      exact .one (.lockuRange hrec.1)

theorem flow_releaseScan (fsid : UInt32) (shard : Nat) (victims : List StateRef) :
    Flow cfg s.tables u (.releaseScan fsid shard victims) (s.releaseScan cfg fsid shard victims) := by
  unfold releaseScan
  split
  · refine .one (.releaseScan fun r hr => ?_)
    obtain ⟨e, he, hfound⟩ := List.mem_filterMap.mp hr
    split at hfound
    · obtain rfl := Option.some.inj hfound
      exact ⟨_, Table.find_of_mem he⟩
    · exact absurd hfound (by simp)
  · exact .one .releaseFound

theorem flow_releaseVictims (fsid : UInt32) (until_ : Int) (victims : List StateRef) :
    Flow cfg s.tables u (.releaseVictims fsid until_ victims) (s.releaseVictims fsid until_ victims).2 := by
  unfold releaseVictims
  split
  · exact .one .releaseEnd
  · split
    · exact .one .releaseNext
    · exact .cons .releaseUnlink (.one .releaseNext)

/-! ### Every frame -/

theorem exec_flow (s : Shared) (cfg : Config) (input : Input) (f : Frame) :
    Flow cfg s.tables (s.exec cfg input f).1.tables f (s.exec cfg input f).2 := by
  cases f with
  | exchangeId args => exact flow_exchangeId args
  | createSession args => exact flow_createSession args
  | createClient c args => exact flow_createClient c args _
  | reapState other => exact flow_reapState other
  | confirmCreateSession clientid reply => exact flow_find .nil fun c hc => .one (.confirmClient hc)
  | confirmClient c clientid reply => exact flow_confirmClient c clientid reply
  | destroySession id connId => exact flow_destroySession id connId
  | destroySessionClient c id => exact .reply _
  | destroyClientid clientid => exact flow_find (.reply _) fun c hc => .one (.destroyClient hc)
  | destroyClient c clientid => exact flow_destroyClient c clientid
  | bindConn id connId => exact flow_modSession id _
  | bindBackchannel id chan => exact flow_modSession id _
  | reclaimComplete clientid => exact flow_find (.reply _) fun c hc => .one (.reclaimClient hc)
  | reclaimClient c clientid => exact flow_reclaimClient c clientid
  | sequenceBegin args => exact flow_sequenceBegin args
  | unlinkState r fromClient handover => exact flow_unlinkState r fromClient handover
  | unlinkFile r fromClient handover => exact flow_unlinkFile r fromClient handover
  | untrackState r handover => exact flow_untrackState r handover
  | openState args => exact flow_openState args
  | openGate c args => exact .one .openGrace
  | openGrace c args reclaimDone heldStates => exact flow_openGrace c args reclaimDone heldStates
  | openArbitrate c args attempt => exact flow_openArbitrate c args attempt
  | openInsert c r => exact .one .openTrack
  | openTrack c r => exact flow_register (Or.inl rfl) (.reply _) (.one .openReply)
  | openReply r merged => exact .reply _
  | grantReadDeleg args => exact flow_grantReadDeleg args
  | grantSession args => exact flow_grantSession args
  | grantFind args => exact flow_grantFind args
  | grantClient c args => exact flow_grantClient c args
  | grantFile c other args => exact flow_grantFile c other args
  | grantInsert c r => exact .one .grantTrack
  | grantTrack c r => exact flow_grantTrack c r
  | grantCount c r dead firstInFs => exact flow_grantCount c r dead firstInFs
  | delegreturn sid clientid file => exact flow_delegreturn sid clientid file
  | openDelegCur sid args => exact flow_openDelegCur sid args
  | delegRecallNeeded file => exact flow_delegRecallNeeded file
  | delegConflict file => exact flow_delegConflict file
  | delegConflictFile file => exact flow_delegConflictFile file
  | sweepRecalls => exact flow_sweepRecalls
  | runRecall => exact flow_runRecall
  | recallTask r => exact .one .recallSend
  | notifyTask clientid owner fh => exact flow_notifyTask clientid owner fh
  | sendCb c cb => exact .one .sendScan
  | sendScan cb ids => exact flow_sendScan cb ids
  | sendClaim id cb => exact flow_sendClaim id cb
  | sendCall id slotSeq chan cb => exact flow_sendCall id slotSeq chan cb
  | closeState sid clientid expect => exact flow_lookup sid fun r hr => .closeCheck hr
  | closeCheck r sid clientid expect => exact flow_closeCheck r sid clientid expect
  | closeReply r other => exact .reply _
  | openDowngrade sid clientid access deny expect => exact flow_lookup sid fun r hr => .downgradeCheck hr
  | downgradeCheck r sid clientid access deny expect => exact flow_downgradeCheck r sid clientid access deny expect
  | downgradeWrite r other access deny => exact .one .downgradeReply
  | stateidReply r other => exact .reply _
  | freeStateid sid clientid => exact flow_lookup sid fun r hr => .freeCheck hr
  | freeCheck r clientid => exact flow_freeCheck r clientid
  | checkIo sid clientid file need => exact flow_checkIo sid clientid file need
  | ioAnonymous file need => exact flow_ioAnonymous file need
  | ioCheck r sid clientid file need => exact flow_ioCheck r sid clientid file need
  | testStateid sid => exact flow_lookup sid fun _ _ => .reply
  | lock args => exact flow_lock args
  | lockGate c args => exact .one .lockGrace
  | lockGrace c args reclaimDone heldStates => exact flow_lockGrace c args reclaimDone heldStates
  | lockState c args heldStates => exact flow_lookup _ fun r hr => .lockCheck hr
  | lockCheck c args heldStates r => exact flow_lockCheck c args heldStates r
  | lockCaps ctx => exact flow_lockCaps ctx
  | lockBefore ctx => exact .one (.lockFirst (Or.inr rfl))
  | lockArbitrate ctx before attempt => exact flow_lockArbitrate ctx before attempt
  | lockConflict ctx before attempt conflict => exact flow_lockConflict ctx before attempt conflict
  | lockPush ctx before => exact flow_lockPush ctx before _
  | lockRestore ctx before => exact .map fun seg hseg => .lockRelock hseg
  | lockRefused ctx answer => exact flow_lockRefused ctx answer
  | lockRemember ctx => exact .one .lockFile
  | lockFile ctx => exact flow_lockFile ctx
  | lockInsert c l => exact .one .lockTrack
  | lockTrack c l => exact flow_register (Or.inr rfl) (.reply _) (.one .lockReply)
  | lockReply l => exact .reply _
  | lockt args => exact flow_lockt args
  | locktTest args attempt => exact flow_locktTest args attempt
  | locktConflict args attempt conflict => exact flow_locktConflict args attempt conflict
  | locktProbe args => exact flow_locktProbe args _
  | locku sid clientid range expect => exact flow_lookup sid fun r hr => .lockuCheck hr
  | lockuCheck r sid clientid range expect => exact flow_lockuCheck r sid clientid range expect
  | lockuRange r other range => exact .one .lockuBump
  | lockuBump r other => exact .one .lockuReply
  | scanLeases => exact .one (.scanStart (clientIdx_of_popDue _ _))
  | scanDue now due timedOut => exact flow_scanDue now due timedOut
  | scanClient now c due timedOut => exact .one .scanDone
  | expireClient clientid reason => exact flow_find .nil fun c hc => .one (.expireSection hc)
  | expireSection c clientid reason => exact flow_expireSection c clientid reason
  | releaseFsid fsid => exact .one .releaseStart
  | releaseScan fsid shard victims => exact flow_releaseScan fsid shard victims
  | releaseVictims fsid until_ victims => exact flow_releaseVictims fsid until_ victims
  | _ => exact .nil

end Shared

end LightNfs
