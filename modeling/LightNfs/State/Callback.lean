import LightNfs.State.Open

/-!
# Callbacks

`send_cb` looks for a session of the client whose backchannel is usable, claims that session's one callback
slot, hands the call to the channel and waits for the reply. `start_recall` spawns a `recall_task` for each
delegation it marks; `notify_lock_waiters` spawns a `notify_task` for each waiter of a released lock.
-/

namespace LightNfs

namespace Shared

variable (cfg : Config)
variable (s : Shared)

/-- The reactor begins the next spawned recall task. -/
def runRecall : Shared × List Frame :=
  match s.recallTasks with
  | [] => (s, [])
  | r :: rest => ({ s with recallTasks := rest }, [.recallTask r])

def recallTask (r : StateRef) : List Frame :=
  [.sendCb (s.states r).client (.recallDeleg r (s.stateid r) (s.states r).fh)]

def notifyTask (clientid : UInt64) (owner fh : Bytes) : List Frame :=
  match s.findClient cfg clientid with
  | none => []
  | some c => if (s.clients c).expired then [] else [.sendCb c (.notifyLock clientid owner fh)]

/-! ### `send_cb` -/

def sendCb (c : ClientRef) (cb : Callback) : List Frame := [.sendScan cb (s.clients c).sessions]

/-- One session of the client at a time, under its shard's lock. -/
def sendScan (s : Shared) (cb : Callback) : List SessionId → List Frame
  | [] => []
  | id :: rest => if (s.sessions.find id).any s.usable then [.sendClaim id cb] else [.sendScan cb rest]

/-- The record a callback holds, whether or not its session is still in the table. -/
def heldSession (id : SessionId) : Option SessionRec := (s.sessions.find id).or (s.erased.find id)

def modHeld (id : SessionId) (f : SessionRec → SessionRec) : Shared :=
  match s.sessions.find id with
  | some session => { s with sessions := s.sessions.put id (f session) }
  | none =>
    match s.erased.find id with
    | some session => { s with erased := s.erased.put id (f session) }
    | none => s

/-- A busy slot drops the callback; one that has been busy for longer than a lease marks the path down. -/
def sendClaim (id : SessionId) (cb : Callback) : Shared × List Frame :=
  match s.heldSession id with
  | none => (s, [])
  | some session =>
    match session.cbChan with
    | none => (s, [])
    | some chan =>
      if !s.usable session then (s, [])
      else if session.cbInflight then
        if s.now - session.cbInflightSince > cfg.leaseSeconds.toNat then
          (s.modHeld id fun session => { session with cbDown := true }, [])
        else (s, [])
      else
        (s.modHeld id fun session =>
          { session with cbInflight := true, cbInflightSince := s.now, cbSeq := session.cbSeq + 1 },
          [.sendCall id (session.cbSeq + 1) chan cb])

/-- `CbChannel::call` up to the point where it waits; a detached channel fails the call at once. -/
def sendCall (id : SessionId) (slotSeq : UInt32) (chan : UInt64) (cb : Callback) :
    Shared × List Frame :=
  if s.alive chan then
    ({ s with cbCalls := s.cbCalls ++ [⟨id, slotSeq, chan, cb⟩] }, [.sendReply id true])
  else (s, [.sendReply id false])

/-- Any well-formed RPC answer proves that the path is alive. -/
def sendReply (id : SessionId) (sent : Bool) (reply : Option Bool) : Shared :=
  s.modHeld id fun session =>
    { session with cbInflight := false, cbDown := session.cbDown || !(sent && reply == some true) }

/-- `CbChannel::detach`, when the connection is torn down. -/
def detach (conn : UInt64) : Shared := { s with detached := conn :: s.detached }

end Shared

end LightNfs
