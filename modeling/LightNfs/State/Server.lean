import LightNfs.Lib.Machine
import LightNfs.Sequence.Slot
import LightNfs.State.Callback
import LightNfs.State.Lock

/-!
# The state manager as a machine

`exec` runs one frame of a request. The machine interleaves any number of requests at the granularity of
these frames; `release_fsid`, which walks the shards of the state table one lock at a time, completes the
list of operations.
-/

namespace LightNfs

namespace Shared

variable (cfg : Config)

/-- `OtherHash`, reduced to the shard index: the first 8 bytes, xored with the last 4 shifted by 17. -/
def stateShard (other : StateOther) : Nat :=
  let head := other.epoch.toNat + other.type.toNat * 2 ^ 32 + other.counter.toNat % 2 ^ 24 * 2 ^ 40
  let tail := other.counter.toNat / 2 ^ 24
  (head ^^^ tail * 2 ^ 17) % cfg.shardCount

def releaseScan (s : Shared) (fsid : UInt32) (shard : Nat) (victims : List StateRef) : List Frame :=
  if shard < cfg.shardCount then
    let found := s.table.entries.filterMap fun e =>
      if stateShard cfg e.1 = shard ∧ (s.states e.2).fsid = fsid ∧ !(s.states e.2).closed then some e.2 else none
    [.releaseScan fsid (shard + 1) (victims ++ found)]
  else [.releaseVictims fsid (s.now + cfg.leaseSeconds.toNat) victims]

/-- One victim at a time; an open may already have taken the next one with it. -/
def releaseVictims (s : Shared) (fsid : UInt32) (until_ : Int) : List StateRef → Shared × List Frame
  | [] => (s, [.endGrace fsid])
  | r :: rest =>
    if (s.states r).closed then (s, [.releaseVictims fsid until_ rest])
    else
      (s.modClient (s.states r).client fun client => { client with leaseMovedUntil := until_ },
        [.unlinkState r true true, .releaseVictims fsid until_ rest])

def exec (input : Input) (frame : Frame) (s : Shared) : Shared × List Frame :=
  match frame with
  | .reply _ => (s, [])
  | .tick n => ({ s with clock := s.clock + n }, [])
  | .exchangeId args => s.exchangeId cfg args
  | .createSession args => (s, s.createSession cfg args)
  | .createClient c args => s.createClient cfg c args input.nonce
  | .createInsert id session => (s.createInsert id session, [])
  | .eraseSession id => (s.eraseSession id, [])
  | .reapState other => (s, s.reapState other)
  | .confirmCreateSession clientid reply => (s, s.confirmCreateSession cfg clientid reply)
  | .confirmClient c clientid reply => s.confirmClient cfg c clientid reply
  | .persistClient c => (s.persistClient cfg c, [])
  | .destroySession id connId => s.destroySession id connId
  | .destroySessionClient c id => (s.destroySessionClient c id, [.reply (.status .ok)])
  | .destroyClientid clientid => (s, s.destroyClientid cfg clientid)
  | .destroyClient c clientid => s.destroyClient cfg c clientid
  | .forgetLockOwners clientid => (s.forgetLockOwners clientid, [])
  | .bindConn id connId => s.bindConn id connId
  | .bindBackchannel id chan => s.bindBackchannel id chan
  | .reclaimComplete clientid => (s, s.reclaimComplete cfg clientid)
  | .reclaimClient c clientid => s.reclaimClient cfg c clientid
  | .noteReclaimed ownerId => (s.noteReclaimed ownerId, [])
  | .sequenceBegin args => s.sequenceBegin cfg args
  | .sequenceAbort id slotid => (s.sequenceAbort id slotid, [])
  | .sequenceComplete id slotid seqid cache reply => (s.sequenceComplete id slotid seqid cache reply, [])
  | .unlinkState r fromClient handover => s.unlinkState r fromClient handover
  | .unlinkFile r fromClient handover => s.unlinkFile r fromClient handover
  | .unlinkLocks r => (s.unlinkLocks r, [])
  | .unlinkDeleg r => (s.unlinkDeleg r, [])
  | .untrackState r handover => s.untrackState cfg r handover
  | .persistFsClient fsid ownerId => (s.stablePut fsid ownerId, [])
  | .unpersistFsClient fsid ownerId => (s.stableErase fsid ownerId, [])
  | .openDelegCur sid args => (s, s.openDelegCur cfg sid args)
  | .openState args => (s, s.openState cfg args)
  | .openGate c args => (s, s.openGate c args)
  | .openGrace c args reclaimDone heldStates => (s.noteGrace, s.openGrace cfg c args reclaimDone heldStates)
  | .openArbitrate c args attempt => s.openArbitrate cfg c args attempt
  | .openInsert c r => s.openInsert c r
  | .openTrack c r => s.openTrack cfg c r
  | .openReply r merged => (s, [.reply (.opened (s.stateid r) merged)])
  | .startRecall r => (s.startRecall cfg r, [])
  | .grantReadDeleg args => s.grantReadDeleg cfg args
  | .grantSession args => (s, s.grantSession args)
  | .grantFind args => (s, s.grantFind cfg args)
  | .grantClient c args => s.grantClient cfg c args
  | .grantFile c other args => s.grantFile c other args
  | .grantInsert c r => s.grantInsert c r
  | .grantTrack c r => s.grantTrack c r
  | .grantCount c r dead firstInFs => s.grantCount cfg c r dead firstInFs
  | .delegreturn sid clientid file => (s, s.delegreturn cfg sid clientid file)
  | .delegRecallNeeded file => (s, s.delegRecallNeeded file)
  | .delegConflict file => (s, s.delegConflict file)
  | .delegConflictFile file => (s, s.delegConflictFile file)
  | .sweepRecalls => s.sweepRecalls
  | .runRecall => s.runRecall
  | .recallTask r => (s, s.recallTask r)
  | .notifyTask clientid owner fh => (s, s.notifyTask cfg clientid owner fh)
  | .sendCb c cb => (s, s.sendCb c cb)
  | .sendScan cb ids => (s, s.sendScan cb ids)
  | .sendClaim id cb => s.sendClaim cfg id cb
  | .sendCall id slotSeq chan cb => s.sendCall id slotSeq chan cb
  | .sendReply id sent => (s.sendReply id sent input.reply, [])
  | .detach conn => (s.detach conn, [])
  | .closeState sid clientid expect => (s, s.closeState cfg sid clientid expect)
  | .closeCheck r sid clientid expect => (s, s.closeCheck r sid clientid expect)
  | .closeReply r other => (s, [.reply (.stateid ⟨(s.states r).seqid + 1, other⟩)])
  | .openDowngrade sid clientid access deny expect => (s, s.openDowngrade cfg sid clientid access deny expect)
  | .downgradeCheck r sid clientid access deny expect => (s, s.downgradeCheck r sid clientid access deny expect)
  | .downgradeWrite r other access deny => (s.downgradeWrite r access deny, [.stateidReply r other])
  | .stateidReply r other => (s, [.reply (.stateid ⟨(s.states r).seqid, other⟩)])
  | .freeStateid sid clientid => (s, s.freeStateid cfg sid clientid)
  | .freeCheck r clientid => (s, s.freeCheck r clientid)
  | .checkIo sid clientid file need => s.checkIo cfg sid clientid file need
  | .ioAnonymous file need => (s, s.ioAnonymous file need)
  | .ioCheck r sid clientid file need => (s, s.ioCheck r sid clientid file need)
  | .testStateid sid => (s, s.testStateid cfg sid)
  | .lock args => (s, s.lock cfg args)
  | .lockGate c args => (s, s.lockGate c args)
  | .lockGrace c args reclaimDone heldStates => (s.noteGrace, s.lockGrace c args reclaimDone heldStates)
  | .lockState c args heldStates => (s, s.lockState cfg c args heldStates)
  | .lockCheck c args heldStates r => (s, s.lockCheck c args heldStates r)
  | .lockCaps ctx => (s, s.lockCaps cfg ctx)
  | .lockBefore ctx => (s, s.lockBefore ctx)
  | .lockArbitrate ctx before attempt => s.lockArbitrate cfg ctx before attempt
  | .lockConflict ctx before attempt conflict => (s, s.lockConflict ctx before attempt conflict)
  | .lockPush ctx before => (s, s.lockPush ctx before input.native)
  | .lockRestore ctx before => s.lockRestore ctx before
  | .lockRelock ctx seg => (s.lockRelock ctx seg, [])
  | .lockRefused ctx answer => s.lockRefused ctx answer
  | .lockRemember ctx => s.lockRemember ctx
  | .lockFile ctx => s.lockFile cfg ctx
  | .lockInsert c l => s.lockInsert c l
  | .lockTrack c l => s.lockTrack cfg c l
  | .lockReply l => (s, [.reply (.stateid (s.stateid l))])
  | .lockt args => (s, s.lockt cfg args)
  | .locktTest args attempt => (s, s.locktTest cfg args attempt)
  | .locktConflict args attempt conflict => (s, s.locktConflict args attempt conflict)
  | .locktProbe args => (s, s.locktProbe args input.native)
  | .locku sid clientid range expect => (s, s.locku cfg sid clientid range expect)
  | .lockuCheck r sid clientid range expect => (s, s.lockuCheck r sid clientid range expect)
  | .lockuRange r other range => (s.lockuRange r range, [.lockuBump r other])
  | .lockuBump r other => (s.bumpSeqid r, [.stateidReply r other])
  | .scanLeases => s.scanLeases
  | .scanDue now due timedOut => s.scanDue cfg now due timedOut
  | .scanClient now c due timedOut => s.scanClient cfg now c due timedOut
  | .expireClient clientid reason => (s, s.expireClient cfg clientid reason)
  | .expireSection c clientid _ => s.expireSection cfg c clientid
  | .unpersistClient c => (s.unpersistClient cfg c, [])
  | .releaseFsid fsid => (s, [.releaseScan fsid 0 []])
  | .releaseScan fsid shard victims => (s, s.releaseScan cfg fsid shard victims)
  | .releaseVictims fsid until_ victims => s.releaseVictims fsid until_ victims
  | .armGrace fsid => (s.loadGraceList cfg fsid input.listed, [])
  | .endGrace fsid => (s.endGrace fsid, [])

end Shared

def server (cfg : Config) : Machine Shared Frame Input := ⟨fun input frame s => s.exec cfg input frame⟩

@[simp] theorem server_exec (cfg : Config) (input : Input) (frame : Frame) (s : Shared) :
    (server cfg).exec input frame s = s.exec cfg input frame := rfl

abbrev boot : Machine.Config Shared Frame := Machine.start {}

end LightNfs
