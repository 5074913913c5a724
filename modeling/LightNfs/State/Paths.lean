import LightNfs.State.Tables

/-!
# Callback paths

What callbacks depend on: the backchannel of each session, the connections that were torn down, the recall tasks
that have not begun and the calls made so far. Only the sections that create, bind, erase or use a session's
backchannel, start a recall or lose a connection touch it.
-/

namespace LightNfs

open Function

structure Path where
  chan : Option UInt64
  down : Bool
  inflight : Bool

def SessionRec.path (session : SessionRec) : Path := ⟨session.cbChan, session.cbDown, session.cbInflight⟩

structure Paths where
  path : SessionId → Option Path
  detached : List UInt64
  recallTasks : List StateRef
  cbCalls : List CbCall

namespace Paths

variable (p : Paths)

def live (path : Path) : Bool := path.chan.any (· ∉ p.detached) && !path.down

/-- The session is in the table and its backchannel can be used. -/
def usable (id : SessionId) : Bool := (p.path id).any p.live

/-- The session's backchannel is bound to the channel. -/
def On (id : SessionId) (chan : UInt64) : Prop := ∃ path, p.path id = some path ∧ path.chan = some chan

def setPath (id : SessionId) (path : Option Path) : Paths := { p with path := update p.path id path }

end Paths

namespace Shared

def paths (s : Shared) : Paths where
  path id := (s.sessions.find id).map SessionRec.path
  detached := s.detached
  recallTasks := s.recallTasks
  cbCalls := s.cbCalls

theorem usable_paths (s : Shared) (id : SessionId) : s.paths.usable id = (s.sessions.find id).any s.usable := by
  show ((s.sessions.find id).map SessionRec.path).any s.paths.live = (s.sessions.find id).any s.usable
  cases s.sessions.find id <;> rfl

variable (cfg : Config) (s : Shared)
variable (c : ClientRef) (args : CreateArgs) (id : SessionId)

theorem paths_putSession (session : SessionRec) :
    (s.putSession id session).paths = s.paths.setPath id (some session.path) := by
  simp only [putSession, paths, Table.map_put_update]
  rfl

theorem setPath_self {id : SessionId} {session session' : SessionRec} (hfind : s.sessions.find id = some session)
    (hpath : session'.path = session.path) : s.paths.setPath id (some session'.path) = s.paths := by
  have hsame : s.paths.path id = some session'.path := by simp [paths, hfind, hpath]
  rw [Paths.setPath, ← hsame, update_eq_self]

/-! ### Sections that leave the paths alone -/

@[simp] theorem paths_armLeaseCheck (when_ : Int) : (s.armLeaseCheck c when_).paths = s.paths := by
  simp only [armLeaseCheck]
  split <;> rfl

@[simp] theorem paths_renew : (s.renew cfg c).paths = s.paths := by
  simp only [renew]
  split
  · exact paths_armLeaseCheck _ _ _
  · rfl

@[simp] theorem paths_clearSlot : (s.clearSlot c).paths = s.paths := by
  unfold clearSlot
  split <;> rfl

@[simp] theorem paths_clearCourtesy : (s.clearCourtesy c).paths = s.paths := by
  unfold clearCourtesy
  split <;> rfl

@[simp] theorem paths_unindex : (s.unindex cfg c).paths = s.paths := rfl

@[simp] theorem paths_retire : (s.retire c).paths = s.paths := paths_clearCourtesy s c

@[simp] theorem paths_dropUnconfirmed (slot : OwnerSlot) : (s.dropUnconfirmed cfg slot).paths = s.paths := by
  unfold dropUnconfirmed
  split <;> rfl

theorem paths_foldl_stableErase (fsids : List UInt32) :
    (fsids.foldl (fun s fsid => s.stableErase fsid (s.clients c).ownerId) s).paths = s.paths := by
  induction fsids generalizing s with
  | nil => rfl
  | cons fsid rest ih => exact ih _

@[simp] theorem paths_unpersistClient : (s.unpersistClient cfg c).paths = s.paths := by
  unfold unpersistClient
  split
  · exact paths_foldl_stableErase s c _
  · rfl

@[simp] theorem paths_registerClient (args : ExchangeArgs) (slot : OwnerSlot) :
    (s.registerClient cfg args slot).1.paths = s.paths := by
  unfold registerClient
  split
  · exact paths_dropUnconfirmed cfg s slot
  · exact (paths_armLeaseCheck _ _ _).trans (paths_dropUnconfirmed cfg s slot)

theorem paths_exchangeId (args : ExchangeArgs) : (s.exchangeId cfg args).1.paths = s.paths := by
  simp only [exchangeId]
  repeat' split
  all_goals simp

theorem paths_retireOld : (s.retireOld cfg c).paths = s.paths := by
  unfold retireOld
  split
  · exact paths_retire s _
  · rfl

theorem paths_addSession :
    (s.addSession cfg c args id).paths = s.paths := paths_renew cfg _ c

theorem paths_createClient (nonce : UInt32) :
    (s.createClient cfg c args nonce).1.paths = s.paths := by
  simp only [createClient]
  repeat' split
  · rfl
  · rfl
  · rfl
  · exact paths_addSession cfg s c args _
  · exact (paths_addSession cfg _ c args _).trans (paths_retireOld cfg s c)

variable (clientid : UInt64)

theorem paths_confirmClient (reply : Bytes) :
    (s.confirmClient cfg c clientid reply).1.paths = s.paths := by
  unfold confirmClient
  split <;> rfl

theorem paths_persistClient : (s.persistClient cfg c).paths = s.paths := by
  unfold persistClient
  split <;> rfl

theorem paths_destroyClient :
    (s.destroyClient cfg c clientid).1.paths = s.paths := by
  simp only [destroyClient]
  repeat' split
  all_goals simp

theorem paths_bindConn (connId : UInt64) : (s.bindConn id connId).1.paths = s.paths := by
  unfold bindConn modSession
  split
  · rfl
  · next session hfind => exact (paths_putSession s id _).trans (setPath_self s hfind rfl)

theorem paths_reclaimClient :
    (s.reclaimClient cfg c clientid).1.paths = s.paths := by
  simp only [reclaimClient]
  repeat' split
  all_goals rfl

theorem paths_sequenceBegin (args : SequenceArgs) : (s.sequenceBegin cfg args).1.paths = s.paths := by
  unfold sequenceBegin
  split
  · rfl
  · next session hfind =>
    have hput : ∀ session', session'.path = session.path → (s.putSession args.id session').paths = s.paths :=
      fun session' hpath => (paths_putSession s args.id session').trans (setPath_self s hfind hpath)
    have hbound := hput (session.bind args.connId) rfl
    repeat' split
    · rfl
    · exact hbound
    · exact hbound
    · exact hbound
    · exact hbound
    · exact (paths_renew cfg _ _).trans hbound
    · exact (paths_renew cfg _ _).trans hbound
    · exact (paths_renew cfg _ _).trans (hput _ rfl)

@[simp] theorem paths_modSlot (slotid : UInt32) (f : Slot → Slot) :
    (s.modSlot id slotid f).paths = s.paths := by
  unfold modSlot
  split
  · rfl
  · next session hfind =>
    split
    · exact (paths_putSession s id _).trans (setPath_self s hfind rfl)
    · rfl

theorem paths_unlinkState (r : StateRef) (fromClient handover : Bool) :
    (s.unlinkState r fromClient handover).1.paths = s.paths := by
  unfold unlinkState
  split <;> rfl

theorem paths_dropFromFile (r : StateRef) : (s.dropFromFile r).paths = s.paths := by
  simp only [dropFromFile]
  repeat' split
  all_goals rfl

@[simp] theorem paths_noteGrace : s.noteGrace.paths = s.paths := by
  unfold noteGrace
  split <;> rfl

theorem paths_openArbitrate (args : OpenArgs) (attempt : Nat) :
    (s.openArbitrate cfg c args attempt).1.paths = s.paths := by
  simp only [openArbitrate]
  repeat' split
  all_goals rfl

theorem paths_register (r : StateRef) (refused accepted : List Frame) :
    (s.register cfg c r refused accepted).1.paths = s.paths := by
  unfold register
  split <;> rfl

theorem paths_grantReadDeleg (args : GrantArgs) : (s.grantReadDeleg cfg args).1.paths = s.paths := by
  unfold grantReadDeleg
  split
  · rfl
  · exact paths_noteGrace s

theorem paths_popDue (now : Int) (heap : List (Int × UInt64)) : (popDue now heap s).1.paths = s.paths := by
  induction heap generalizing s with
  | nil => rfl
  | cons entry rest ih =>
    unfold popDue
    split
    · split
      · exact ih s
      · split
        · exact ih s
        · exact ih _
    · rfl

theorem paths_scanDue (now : Int) (due : List ClientRef) (timedOut : List UInt64) :
    (s.scanDue cfg now due timedOut).1.paths = s.paths := by
  unfold scanDue
  cases due with
  | nil => rfl
  | cons c rest =>
    dsimp only
    repeat' split
    all_goals simp

theorem paths_scanClient (now : Int) (c : ClientRef) (due : List ClientRef) (timedOut : List UInt64) :
    (s.scanClient cfg now c due timedOut).1.paths = s.paths := by
  simp only [scanClient]
  repeat' split
  · rfl
  · simp
  · simp
  · exact paths_armLeaseCheck _ _ _

theorem paths_expireSection :
    (s.expireSection cfg c clientid).1.paths = s.paths := by
  simp only [expireSection]
  split <;> simp

theorem paths_releaseVictims (fsid : UInt32) (until_ : Int) (victims : List StateRef) :
    (s.releaseVictims fsid until_ victims).1.paths = s.paths := by
  unfold releaseVictims
  repeat' split
  all_goals rfl

theorem paths_loadGraceList (fsid : UInt32) (listed : List Bytes) :
    (s.loadGraceList cfg fsid listed).paths = s.paths := by
  simp only [loadGraceList, armGrace]
  split <;> rfl

theorem paths_lockRefused (ctx : LockCtx) (answer : Answer) : (s.lockRefused ctx answer).1.paths = s.paths := by
  unfold lockRefused
  repeat' split
  all_goals first | rfl | exact paths_noteGrace s

theorem paths_lockFile (ctx : LockCtx) : (s.lockFile cfg ctx).1.paths = s.paths := by
  unfold lockFile
  split
  · unfold lockCreate
    rfl
  · rfl

end Shared

def Frame.MovesPaths : Frame → Prop
  | createInsert _ _ | eraseSession _ | destroySession _ _ | bindBackchannel _ _ | startRecall _ | runRecall
  | sendClaim _ _ | sendCall _ _ _ _ | sendReply _ _ | detach _ => True
  | _ => False

theorem Shared.paths_exec (s : Shared) (cfg : Config) (input : Input) {f : Frame} (hf : ¬f.MovesPaths) :
    (s.exec cfg input f).1.paths = s.paths := by
  cases f with
  | exchangeId args => exact paths_exchangeId cfg s args
  | createClient c args => exact paths_createClient cfg s c args _
  | confirmClient c clientid reply => exact paths_confirmClient cfg s c clientid reply
  | persistClient c => exact paths_persistClient cfg s c
  | destroyClient c clientid => exact paths_destroyClient cfg s c clientid
  | bindConn id connId => exact paths_bindConn s id connId
  | reclaimClient c clientid => exact paths_reclaimClient cfg s c clientid
  | sequenceBegin args => exact paths_sequenceBegin cfg s args
  | sequenceAbort id slotid => exact paths_modSlot s id slotid _
  | sequenceComplete id slotid seqid cache reply => exact paths_modSlot s id slotid _
  | unlinkState r fromClient handover => exact paths_unlinkState s r fromClient handover
  | unlinkFile r fromClient handover => exact paths_dropFromFile s r
  | openGrace c args reclaimDone heldStates => exact paths_noteGrace s
  | openArbitrate c args attempt => exact paths_openArbitrate cfg s c args attempt
  | openTrack c r => exact paths_register cfg s c r _ _
  | grantReadDeleg args => exact paths_grantReadDeleg cfg s args
  | grantClient c args =>
    simp only [exec, grantClient]
    split <;> rfl
  | grantFile c other args =>
    simp only [exec, grantFile]
    split <;> rfl
  | grantTrack c r =>
    simp only [exec, grantTrack]
    split <;> rfl
  | checkIo sid clientid file need =>
    simp only [exec, checkIo]
    repeat' split
    all_goals simp
  | lockGrace c args reclaimDone heldStates => exact paths_noteGrace s
  | lockRefused ctx answer => exact paths_lockRefused s ctx answer
  | lockFile ctx => exact paths_lockFile cfg s ctx
  | lockTrack c l => exact paths_register cfg s c l _ _
  | scanLeases => exact paths_popDue s _ _
  | scanDue now due timedOut => exact paths_scanDue cfg s now due timedOut
  | scanClient now c due timedOut => exact paths_scanClient cfg s now c due timedOut
  | expireSection c clientid reason => exact paths_expireSection cfg s c clientid
  | unpersistClient c => exact paths_unpersistClient cfg s c
  | releaseVictims fsid until_ victims => exact paths_releaseVictims s fsid until_ victims
  | armGrace fsid => exact paths_loadGraceList cfg s fsid _
  | createInsert | eraseSession | destroySession | bindBackchannel | startRecall | runRecall | sendClaim | sendCall
  | sendReply | detach => exact absurd trivial hf
  | _ => rfl

/-! ### What the other sections do to a path -/

/-- The frame gives the session a backchannel. -/
def Frame.Binds (id : SessionId) : Frame → Prop
  | bindBackchannel id' _ | createInsert id' _ => id' = id
  | _ => False

namespace Shared

/-- The frame may take the session's backchannel away: the session leaves the table, the reply to a callback is
missing or malformed, the slot is found stuck, or the connection is lost. -/
def Lowers (cfg : Config) (s : Shared) (input : Input) (id : SessionId) : Frame → Prop
  | .eraseSession id' | .destroySession id' _ => id' = id
  | .sendReply id' sent => id' = id ∧ ¬(sent = true ∧ input.reply = some true)
  | .sendClaim id' _ => id' = id ∧ (s.sessions.find id').any fun session =>
      session.cbInflight && s.now - session.cbInflightSince > cfg.leaseSeconds.toNat
  | .detach conn => (s.sessions.find id).any fun session => session.cbChan == some conn
  | _ => False

/-- What a frame may leave of the paths. -/
inductive PathStep (cfg : Config) (s : Shared) (input : Input) : Frame → Paths → Prop
  | same {f : Frame} : PathStep cfg s input f s.paths
  | bound {f : Frame} {id : SessionId} {path : Path} (hf : f.Binds id) :
      PathStep cfg s input f (s.paths.setPath id (some path))
  | erased {f : Frame} {id : SessionId} (hf : s.Lowers cfg input id f) : PathStep cfg s input f (s.paths.setPath id none)
  | marked {f : Frame} {id : SessionId} {session : SessionRec} (hfind : s.sessions.find id = some session)
      (down inflight : Bool) (hdown : session.cbDown = true → down = true)
      (hlower : down = true → session.cbDown = true ∨ s.Lowers cfg input id f) :
      PathStep cfg s input f (s.paths.setPath id (some ⟨session.cbChan, down, inflight⟩))
  | recalled {r : StateRef} (hnew : (s.states r).recalled = false) :
      PathStep cfg s input (.startRecall r) { s.paths with recallTasks := s.recallTasks ++ [r] }
  | begun {r : StateRef} {rest : List StateRef} (htasks : s.recallTasks = r :: rest) :
      PathStep cfg s input .runRecall { s.paths with recallTasks := rest }
  | called {id : SessionId} {slotSeq : UInt32} {chan : UInt64} {cb : Callback} (halive : s.alive chan = true) :
      PathStep cfg s input (.sendCall id slotSeq chan cb)
        { s.paths with cbCalls := s.cbCalls ++ [⟨id, slotSeq, chan, cb⟩] }
  | detached {conn : UInt64} :
      PathStep cfg s input (.detach conn) { s.paths with detached := conn :: s.detached }

variable {cfg : Config} {s : Shared} {input : Input}

theorem pathStep_modHeld {f : Frame} {id : SessionId} {g : SessionRec → SessionRec}
    (hchan : ∀ x, (g x).cbChan = x.cbChan) (hdown : ∀ x, x.cbDown = true → (g x).cbDown = true)
    (hlower : ∀ x, s.sessions.find id = some x → (g x).cbDown = true → x.cbDown = true ∨ s.Lowers cfg input id f) :
    PathStep cfg s input f (s.modHeld id g).paths := by
  unfold modHeld
  split
  · next session hfind =>
    have hpaths : { s with sessions := s.sessions.put id (g session) }.paths =
        s.paths.setPath id (some ⟨session.cbChan, (g session).cbDown, (g session).cbInflight⟩) := by
      rw [← hchan session]
      exact paths_putSession s id (g session)
    rw [hpaths]
    exact .marked hfind _ _ (hdown session) (hlower session hfind)
  · split <;> exact .same

theorem pathStep_eraseSession {f : Frame} {id : SessionId} (hf : s.Lowers cfg input id f) :
    PathStep cfg s input f (s.eraseSession id).paths := by
  unfold eraseSession
  split
  · exact .same
  · next session hfind =>
    have hpaths : { s with
        sessions := s.sessions.remove id
        erased := s.erased.put id session
        gauges := { s.gauges with sessions := s.gauges.sessions - 1 } }.paths = s.paths.setPath id none := by
      simp only [paths, Table.map_remove_update]
      rfl
    rw [hpaths]
    exact .erased hf

theorem pathStep_bindBackchannel (id : SessionId) (chan : UInt64) :
    PathStep cfg s input (.bindBackchannel id chan) (s.bindBackchannel id chan).1.paths := by
  unfold bindBackchannel modSession
  split
  · exact .same
  · next session hfind =>
    have hpaths := paths_putSession s id { session with cbChan := some chan, cbInflight := false, cbDown := false }
    show PathStep cfg s input _ (s.putSession id _).paths
    rw [hpaths]
    exact .bound rfl

theorem pathStep_sendClaim (id : SessionId) (cb : Callback) :
    PathStep cfg s input (.sendClaim id cb) (s.sendClaim cfg id cb).1.paths := by
  unfold sendClaim
  split
  · exact .same
  · next held hheld =>
    split
    · exact .same
    · split
      · exact .same
      · split
        · next hbusy =>
          split
          · next hlong =>
            refine pathStep_modHeld (fun _ => rfl) (fun _ _ => rfl) fun x hx _ => Or.inr ⟨rfl, ?_⟩
            obtain rfl : x = held := by simpa [heldSession, hx] using hheld
            simp [hx, hbusy, hlong]
          · exact .same
        · exact pathStep_modHeld (fun _ => rfl) (fun _ h => h) fun _ _ h => Or.inl h

theorem pathStep_sendReply (id : SessionId) (sent : Bool) :
    PathStep cfg s input (.sendReply id sent) (s.sendReply id sent input.reply).paths := by
  refine pathStep_modHeld (fun _ => rfl) (fun x hx => ?_) fun x _ hdown => ?_
  · simp [hx]
  · simp only [Bool.or_eq_true, Bool.not_eq_true', Bool.and_eq_false_iff] at hdown
    refine hdown.imp_right fun hbad => ⟨rfl, fun hgood => ?_⟩
    simp [hgood] at hbad

theorem exec_pathStep (s : Shared) (cfg : Config) (input : Input) (f : Frame) :
    PathStep cfg s input f (s.exec cfg input f).1.paths := by
  by_cases hf : f.MovesPaths
  · cases f with
    | createInsert id session =>
      have hpaths : (s.createInsert id session).paths = s.paths.setPath id (some session.path) :=
        paths_putSession s id session
      simp only [exec]
      rw [hpaths]
      exact .bound rfl
    | eraseSession id => exact pathStep_eraseSession rfl
    | destroySession id connId =>
      simp only [exec, destroySession]
      repeat' split
      · exact .same
      · exact pathStep_eraseSession rfl
      · exact .same
    | bindBackchannel id chan => exact pathStep_bindBackchannel id chan
    | startRecall r =>
      simp only [exec, startRecall]
      split
      · exact .same
      · next hnew => exact .recalled (by simpa using hnew)
    | runRecall =>
      simp only [exec, runRecall]
      split
      · exact .same
      · next htasks => exact .begun htasks
    | sendClaim id cb => exact pathStep_sendClaim id cb
    | sendCall id slotSeq chan cb =>
      simp only [exec, sendCall]
      split
      · next halive => exact .called halive
      · exact .same
    | sendReply id sent => exact pathStep_sendReply id sent
    | detach conn => exact .detached
    | _ => exact hf.elim
  · rw [paths_exec s cfg input hf]
    exact .same

/-! ### Usable sessions, calls and recall tasks -/

theorem usable_setPath (p : Paths) (id id' : SessionId) (path : Option Path) :
    (p.setPath id path).usable id' = if id' = id then path.any p.live else p.usable id' := by
  show (update p.path id path id').any p.live = _
  rw [update_apply]
  split <;> rfl

theorem usable_of_find {id : SessionId} {session : SessionRec} (hfind : s.sessions.find id = some session) :
    s.paths.usable id = s.usable session := by
  rw [usable_paths, hfind, Option.any_some]

namespace PathStep

variable {f : Frame} {p : Paths} {id : SessionId}

theorem gained (h : PathStep cfg s input f p) (hid : p.usable id = true) : s.paths.usable id = true ∨ f.Binds id := by
  cases h with
  | same | recalled | begun | called => exact Or.inl hid
  | @bound _ id' path hf =>
    rw [usable_setPath] at hid
    split at hid
    · next heq =>
      rw [heq]
      exact Or.inr hf
    · exact Or.inl hid
  | erased =>
    rw [usable_setPath] at hid
    split at hid
    · simp at hid
    · exact Or.inl hid
  | @marked _ id' session hfind down inflight hdown =>
    rw [usable_setPath] at hid
    split at hid
    · next heq =>
      subst heq
      rw [usable_of_find hfind]
      simp only [Option.any_some, Paths.live, Bool.and_eq_true, Bool.not_eq_true'] at hid
      simp only [usable, Bool.and_eq_true, Bool.not_eq_true']
      exact Or.inl ⟨hid.1, Bool.eq_false_iff.mpr fun h => by simp [hdown h] at hid⟩
    · exact Or.inl hid
  | detached =>
    simp only [Paths.usable, Option.any_eq_true, Paths.live, Bool.and_eq_true] at hid ⊢
    obtain ⟨path, hpath, ⟨chan, hchan, hlive⟩, hdown⟩ := hid
    have hkept : chan ∉ s.paths.detached := fun h => by
      have hin : chan ∈ s.detached := h
      simp [hin] at hlive
    exact Or.inl ⟨path, hpath, ⟨chan, hchan, by simpa using hkept⟩, hdown⟩

theorem kept (h : PathStep cfg s input f p) (hid : s.paths.usable id = true) (hbind : ¬f.Binds id)
    (hlower : ¬s.Lowers cfg input id f) : p.usable id = true := by
  cases h with
  | same | recalled | begun | called => exact hid
  | @bound _ id' path hf =>
    rw [usable_setPath, if_neg]
    · exact hid
    · rintro rfl
      exact hbind hf
  | @erased _ id' hf =>
    rw [usable_setPath, if_neg]
    · exact hid
    · rintro rfl
      exact hlower hf
  | @marked _ id' session hfind down inflight hdown hlow =>
    rw [usable_setPath]
    split
    · next heq =>
      subst heq
      rw [usable_of_find hfind] at hid
      simp only [usable, Bool.and_eq_true, Bool.not_eq_true'] at hid
      simp only [Option.any_some, Paths.live, Bool.and_eq_true, Bool.not_eq_true']
      refine ⟨hid.1, Bool.eq_false_iff.mpr fun h => ?_⟩
      rcases hlow h with hd | hl
      · simp [hid.2] at hd
      · exact hlower hl
    · exact hid
  | @detached conn =>
    rw [usable_paths, Option.any_eq_true] at hid
    obtain ⟨session, hfind, husable⟩ := hid
    simp only [usable, Bool.and_eq_true, Option.any_eq_true] at husable
    obtain ⟨⟨chan, hchan, halive⟩, hdown⟩ := husable
    have hne : chan ≠ conn := by
      rintro rfl
      refine hlower ?_
      simp [Lowers, hfind, hchan]
    simp only [Paths.usable, paths, hfind, Option.map_some, Option.any_some, Paths.live, SessionRec.path, hchan]
    simp only [alive, decide_eq_true_eq] at halive
    simp only [Bool.not_eq_true'] at hdown
    simpa [hne] using ⟨halive, hdown⟩

theorem on_kept (h : PathStep cfg s input f p) {chan : UInt64} (hon : s.paths.On id chan) (hbind : ¬f.Binds id)
    (hlower : ¬s.Lowers cfg input id f) : p.On id chan := by
  have hother : ∀ {id' : SessionId} {path : Option Path}, id ≠ id' → (s.paths.setPath id' path).On id chan := by
    intro id' path hne
    obtain ⟨old, hold, hchan⟩ := hon
    exact ⟨old, (update_of_ne hne _ _).trans hold, hchan⟩
  cases h with
  | same | recalled | begun | called | detached => exact hon
  | bound hf =>
    refine hother ?_
    rintro rfl
    exact hbind hf
  | erased hf =>
    refine hother ?_
    rintro rfl
    exact hlower hf
  | @marked _ id' session hfind down inflight =>
    by_cases heq : id = id'
    · subst heq
      obtain ⟨old, hold, hchan⟩ := hon
      obtain rfl : session.path = old := by simpa [paths, hfind] using hold
      exact ⟨_, update_self _ _ _, hchan⟩
    · exact hother heq

theorem calls (h : PathStep cfg s input f p) {call : CbCall} (hcall : call ∈ s.cbCalls) : call ∈ p.cbCalls := by
  cases h with
  | called => exact List.mem_append_left _ hcall
  | _ => exact hcall

theorem tasks_new (h : PathStep cfg s input f p) {r : StateRef} (hr : r ∈ p.recallTasks) :
    r ∈ s.recallTasks ∨ f = .startRecall r ∧ (s.states r).recalled = false := by
  cases h with
  | @recalled r' hnew =>
    rcases List.mem_append.mp hr with hr | hr
    · exact Or.inl hr
    · rw [List.mem_singleton] at hr
      subst hr
      exact Or.inr ⟨rfl, hnew⟩
  | begun htasks =>
    rw [htasks]
    exact Or.inl (List.mem_cons_of_mem _ hr)
  | _ => exact Or.inl hr

theorem tasks_kept (h : PathStep cfg s input f p) {r : StateRef} (hr : r ∈ s.recallTasks) :
    r ∈ p.recallTasks ∨ f = .runRecall ∧ ∃ rest, s.recallTasks = r :: rest := by
  cases h with
  | recalled => exact Or.inl (List.mem_append_left _ hr)
  | begun htasks =>
    rw [htasks] at hr
    rcases List.mem_cons.mp hr with heq | hr
    · subst heq
      exact Or.inr ⟨rfl, _, htasks⟩
    · exact Or.inl hr
  | _ => exact Or.inl hr

end PathStep

end Shared

end LightNfs
