import LightNfs.State.Effects

/-!
# What a frame may do to the tables

`Change` lists every effect a section has on the tables, with what the section checked before it acted.
`exec_change` says that the list is complete; the invariants of the development are proved by going through
it, not through the sections.
-/

namespace LightNfs

/-- Sections that never touch the tables. -/
def Frame.Quiet : Frame → Prop
  | reply _ | tick _ | createSession _ | reapState _ | confirmCreateSession _ _ | persistClient _ | destroyClientid _
  | bindConn _ _ | bindBackchannel _ _ | reclaimComplete _ | reclaimClient _ _ | noteReclaimed _ | sequenceBegin _
  | sequenceAbort _ _ | sequenceComplete _ _ _ _ _ | unlinkDeleg _ | persistFsClient _ _ | unpersistFsClient _ _
  | openDelegCur _ _ | openState _ | openGate _ _ | openGrace _ _ _ _ | openReply _ _ | grantReadDeleg _ | grantSession _ | grantFind _
  | grantCount _ _ _ _ | delegreturn _ _ _ | delegRecallNeeded _ | delegConflict _ | delegConflictFile _ | runRecall
  | recallTask _ | notifyTask _ _ _ | sendCb _ _ | sendScan _ _ | sendClaim _ _ | sendCall _ _ _ _ | sendReply _ _ | detach _
  | closeState _ _ _
  | closeCheck _ _ _ _ | closeReply _ _ | openDowngrade _ _ _ _ _ | downgradeCheck _ _ _ _ _ _ | stateidReply _ _
  | freeStateid _ _ | freeCheck _ _ | checkIo _ _ _ _ | ioAnonymous _ _ | ioCheck _ _ _ _ _ | testStateid _ | lock _ | lockGate _ _ | lockGrace _ _ _ _ | lockState _ _ _
  | lockCheck _ _ _ _ | lockCaps _ | lockBefore _ | lockConflict _ _ _ _ | lockPush _ _ | lockRefused _ _
  | lockReply _ | lockt _ | locktTest _ _ | locktConflict _ _ _ | locktProbe _ | locku _ _ _ _
  | lockuCheck _ _ _ _ _ | lockuBump _ _ | scanLeases | scanDue _ _ _ | expireClient _ _ | releaseFsid _
  | releaseScan _ _ _ | releaseVictims _ _ _ | armGrace _ | endGrace _ => True
  | _ => False

namespace Tables

/-- Neither closed nor held by a client whose reclaim has started. -/
def Live (t : Tables) (r : StateRef) : Prop :=
  (t.states r).closed = false ∧ (t.clients (t.states r).client).expired = false

/-- The share bits of the request fit those of every other live open of the file. -/
def Admits (t : Tables) (c : ClientRef) (args : OpenArgs) : Prop :=
  ∀ r ∈ (t.fileAt args.file).opens, t.Live r → ¬((t.states r).client = c ∧ (t.states r).owner = args.owner) →
    args.access &&& (t.states r).deny = 0 ∧ args.deny &&& (t.states r).access = 0

/-- The owner's slot and the tables a registration goes on with: a confirmed record of another principal
that holds nothing has to make room first. -/
inductive Vacated (cfg : Config) (t : Tables) (o : Bytes) : OwnerSlot → Tables → Prop
  | same : Vacated cfg t o (t.byOwner o) t
  | evicted {c : ClientRef} (hconf : (t.byOwner o).confirmed = some c) (hsessions : (t.clients c).sessions = [])
      (hstates : (t.clients c).states = []) :
      Vacated cfg t o { t.byOwner o with confirmed := none } ((t.unpersist cfg c).unindex cfg c)

def remove (cfg : Config) (t : Tables) (c : ClientRef) : Tables := ((t.unpersist cfg c).clearSlot c).unindex cfg c

end Tables

/-- The frames that enter a new record in the state table, and those that enter it at its client. -/
inductive Frame.Inserts (c : ClientRef) (r : StateRef) : Frame → Prop
  | openRec : Frame.Inserts c r (.openInsert c r)
  | deleg : Frame.Inserts c r (.grantInsert c r)
  | lockRec : Frame.Inserts c r (.lockInsert c r)

inductive Frame.Tracks (c : ClientRef) (r : StateRef) : Frame → Prop
  | openRec : Frame.Tracks c r (.openTrack c r)
  | deleg : Frame.Tracks c r (.grantTrack c r)
  | lockRec : Frame.Tracks c r (.lockTrack c r)

open Tables in
inductive Change (cfg : Config) (t : Tables) : Frame → Tables → Prop
  | quiet {f : Frame} (hf : f.Quiet) : Change cfg t f t
  -- clients
  | exchangeRefused {args : ExchangeArgs} : Change cfg t (.exchangeId args) t
  | exchangeFull {args : ExchangeArgs} {slot : OwnerSlot} {u : Tables} (hu : t.Vacated cfg args.ownerId slot u) :
      Change cfg t (.exchangeId args)
        ((u.dropUnconfirmed cfg slot).setSlot args.ownerId { slot with unconfirmed := none })
  | exchangeNew {args : ExchangeArgs} {slot : OwnerSlot} {u : Tables} (hu : t.Vacated cfg args.ownerId slot u) :
      Change cfg t (.exchangeId args) ((u.dropUnconfirmed cfg slot).addClient cfg args slot)
  | createRefused {c : ClientRef} {args : CreateArgs} : Change cfg t (.createClient c args) t
  | createAgain {c : ClientRef} {args : CreateArgs} {nonce : UInt32} (hconf : (t.clients c).confirmed = true)
      (hseq : args.sequence = (t.clients c).csSequence) :
      Change cfg t (.createClient c args) (t.addSession c args ⟨(t.clients c).clientid, t.nextSession, nonce⟩)
  | createFirst {c : ClientRef} {args : CreateArgs} {nonce : UInt32} (hconf : (t.clients c).confirmed = false)
      (hseq : args.sequence = (t.clients c).csSequence) :
      Change cfg t (.createClient c args)
        ((t.confirmIncarnation cfg c).addSession c args ⟨(t.clients c).clientid, t.nextSession, nonce⟩)
  | insertSession {id : SessionId} {session : SessionRec} :
      Change cfg t (.createInsert id session) (t.setSession id (some session.client))
  | eraseSession {id : SessionId} : Change cfg t (.eraseSession id) (t.setSession id none)
  | confirmRefused {c : ClientRef} {clientid : UInt64} {reply : Bytes} : Change cfg t (.confirmClient c clientid reply) t
  | cacheReply {c : ClientRef} {clientid : UInt64} {reply : Bytes} :
      Change cfg t (.confirmClient c clientid reply) (t.cacheReply c reply)
  | destroyNoSession {id : SessionId} {connId : UInt64} : Change cfg t (.destroySession id connId) t
  | destroySession {id : SessionId} {connId : UInt64} {c : ClientRef} (hid : t.sessions id = some c) :
      Change cfg t (.destroySession id connId) (t.setSession id none)
  | dropSession {c : ClientRef} {id : SessionId} : Change cfg t (.destroySessionClient c id) (t.dropSession c id)
  | destroyRefused {c : ClientRef} {clientid : UInt64} : Change cfg t (.destroyClient c clientid) t
  | destroyClient {c : ClientRef} {clientid : UInt64}
      (hreg : t.byId (cfg.ownerShard (t.clients c).ownerId, clientid) = some c)
      (hsessions : (t.clients c).sessions = []) (hstates : (t.clients c).states = []) :
      Change cfg t (.destroyClient c clientid) (t.remove cfg c)
  | forgetLockOwners {clientid : UInt64} : Change cfg t (.forgetLockOwners clientid) (t.forgetLockOwners clientid)
  | scanKept {now : Int} {c : ClientRef} {due : List ClientRef} {timedOut : List UInt64} :
      Change cfg t (.scanClient now c due timedOut) t
  | scanLapsed {now : Int} {c : ClientRef} {due : List ClientRef} {timedOut : List UInt64}
      (hreg : t.Registered cfg c) (hexp : (t.clients c).expired = false)
      (hidle : (t.clients c).confirmed = false ∨ (t.clients c).sessions = [] ∧ (t.clients c).states = []) :
      Change cfg t (.scanClient now c due timedOut) (t.remove cfg c)
  | expireStale {c : ClientRef} {clientid : UInt64} {reason : Reason}
      (hgone : t.byId (cfg.ownerShard (t.clients c).ownerId, clientid) ≠ some c ∨ (t.clients c).expired = true) :
      Change cfg t (.expireSection c clientid reason) t
  | expire {c : ClientRef} {clientid : UInt64} {reason : Reason}
      (hreg : t.byId (cfg.ownerShard (t.clients c).ownerId, clientid) = some c)
      (hexp : (t.clients c).expired = false) :
      Change cfg t (.expireSection c clientid reason) (((t.retire c).clearSlot c).unindex cfg c)
  | unpersist {c : ClientRef} : Change cfg t (.unpersistClient c) (t.unpersist cfg c)
  -- states leave the tables
  | unlinkAgain {r : StateRef} {fromClient handover : Bool} (hclosed : (t.states r).closed = true) :
      Change cfg t (.unlinkState r fromClient handover) t
  | close {r : StateRef} {fromClient handover : Bool} (hopen : (t.states r).closed = false) :
      Change cfg t (.unlinkState r fromClient handover) (t.close r)
  | dropFromFile {r : StateRef} {fromClient handover : Bool} :
      Change cfg t (.unlinkFile r fromClient handover) (t.dropFromFile r)
  | releaseLocks {r : StateRef} :
      Change cfg t (.unlinkLocks r) (t.setLocks (t.locks.releaseOwner (t.states r).key (t.states r).lowner).1)
  | untrack {r : StateRef} {handover : Bool} : Change cfg t (.untrackState r handover) (t.untrack r)
  -- states enter the tables
  | openRefused {c : ClientRef} {args : OpenArgs} {attempt : Nat} : Change cfg t (.openArbitrate c args attempt) t
  | openMerge {c : ClientRef} {args : OpenArgs} {attempt : Nat} {r : StateRef} (hadmits : t.Admits c args)
      (hr : r ∈ (t.fileAt args.file).opens) (hlive : t.Live r) (hclient : (t.states r).client = c)
      (howner : (t.states r).owner = args.owner) :
      Change cfg t (.openArbitrate c args attempt)
        (t.setShare r ((t.states r).access ||| args.access) ((t.states r).deny ||| args.deny))
  | openNew {c : ClientRef} {args : OpenArgs} {attempt : Nat} (hadmits : t.Admits c args)
      (hnone : ∀ r ∈ (t.fileAt args.file).opens, t.Live r →
        ¬((t.states r).client = c ∧ (t.states r).owner = args.owner)) :
      Change cfg t (.openArbitrate c args attempt) (t.mint.publish (openView c args (t.newOther cfg .kOpen)))
  | insert {f : Frame} {c : ClientRef} {r : StateRef} (hf : f.Inserts c r) : Change cfg t f (t.insertState r)
  | trackRefused {f : Frame} {c : ClientRef} {r : StateRef} (hf : f.Tracks c r) (hexp : (t.clients c).expired = true) :
      Change cfg t f t
  | track {f : Frame} {c : ClientRef} {r : StateRef} (hf : f.Tracks c r) (hexp : (t.clients c).expired = false) :
      Change cfg t f (t.track c r)
  | grantRefused {c : ClientRef} {args : GrantArgs} : Change cfg t (.grantClient c args) t
  | grantMint {c : ClientRef} {args : GrantArgs} : Change cfg t (.grantClient c args) t.mint
  | grantBlocked {c : ClientRef} {other : StateOther} {args : GrantArgs} : Change cfg t (.grantFile c other args) t
  | grantNew {c : ClientRef} {other : StateOther} {args : GrantArgs} :
      Change cfg t (.grantFile c other args) (t.publish (delegView c args other))
  | recallAgain {r : StateRef} : Change cfg t (.startRecall r) t
  | recallFirst {r : StateRef} : Change cfg t (.startRecall r) (t.setWatch (t.recallWatch ++ [r]))
  | sweep {watch : List StateRef} (hwatch : ∀ r ∈ watch, r ∈ t.recallWatch) :
      Change cfg t .sweepRecalls (t.setWatch watch)
  | downgrade {r : StateRef} {other : StateOther} {access deny : ShareBits} :
      Change cfg t (.downgradeWrite r other access deny) (t.setShare r access deny)
  -- byte-range locks
  | lockArbitrate {ctx : LockCtx} {before : List LockSeg} {attempt : Nat} :
      Change cfg t (.lockArbitrate ctx before attempt)
        (t.setLocks (t.locks.lock ctx.args.file ctx.lowner ctx.args.range ctx.args.exclusive).1)
  | lockRestore {ctx : LockCtx} {before : List LockSeg} :
      Change cfg t (.lockRestore ctx before) (t.setLocks (t.locks.releaseOwner ctx.args.file ctx.lowner).1)
  | lockRelock {ctx : LockCtx} {seg : LockSeg} :
      Change cfg t (.lockRelock ctx seg)
        (t.setLocks (t.locks.lock ctx.args.file ctx.lowner (toRange seg.start seg.stop) seg.exclusive).1)
  | unlock {r : StateRef} {other : StateOther} {range : LockRange} :
      Change cfg t (.lockuRange r other range)
        (t.setLocks (t.locks.unlock (t.states r).key (t.states r).lowner range))
  | lockRemember {ctx : LockCtx} : Change cfg t (.lockRemember ctx) (t.rememberOwner ctx.lowner ctx.client)
  | lockNew {ctx : LockCtx} (hnamed : ctx.lockRec = none)
      (hnone : ∀ l ∈ (t.fileAt ctx.args.file).locks, (t.states l).closed = false →
        sameOwner (t.states l).lowner ctx.lowner = false) :
      Change cfg t (.lockFile ctx) (t.mint.publish (lockView ctx (t.newOther cfg .kLock)))
  | lockReuse {ctx : LockCtx} {l : StateRef}
      (hl : ctx.lockRec = some l ∨ ctx.lockRec = none ∧ l ∈ (t.fileAt ctx.args.file).locks ∧
        (t.states l).closed = false ∧ sameOwner (t.states l).lowner ctx.lowner = true) :
      Change cfg t (.lockFile ctx) (t.touchFile ctx.args.file)

namespace Shared

variable {cfg : Config} {s : Shared}

/-! ### Clients -/

theorem change_registerClient {args : ExchangeArgs} {slot : OwnerSlot} {u : Shared}
    (hu : s.tables.Vacated cfg args.ownerId slot u.tables) :
    Change cfg s.tables (.exchangeId args) (u.registerClient cfg args slot).1.tables := by
  unfold registerClient
  split
  · rw [tables_setSlot, tables_dropUnconfirmed]
    exact .exchangeFull hu
  · rw [tables_addClient, tables_dropUnconfirmed]
    exact .exchangeNew hu

theorem change_exchangeId (args : ExchangeArgs) :
    Change cfg s.tables (.exchangeId args) (s.exchangeId cfg args).1.tables := by
  have hrenew : ∀ c, Change cfg s.tables (.exchangeId args) (s.renew cfg c).tables := fun c => by
    rw [tables_renew]
    exact .exchangeRefused
  unfold exchangeId
  dsimp only
  split
  · split
    · exact .exchangeRefused
    · exact change_registerClient .same
  · rename_i c hc
    split
    · split
      · exact .exchangeRefused
      · split
        · exact .exchangeRefused
        · exact hrenew c
    · split
      · split
        · exact .exchangeRefused
        · rename_i hbusy
          push Not at hbusy
          apply change_registerClient
          rw [tables_unindex, tables_unpersistClient]
          exact .evicted hc hbusy.1 hbusy.2
      · split
        · exact hrenew c
        · exact change_registerClient .same

variable (c : ClientRef) (clientid : UInt64)

theorem change_createClient (args : CreateArgs) (nonce : UInt32) :
    Change cfg s.tables (.createClient c args) (s.createClient cfg c args nonce).1.tables := by
  unfold createClient
  dsimp only
  split
  · exact .createRefused
  · split
    · exact .createRefused
    · split
      · exact .createRefused
      · rename_i hseq
        rw [not_not] at hseq
        split
        · rename_i hconf
          rw [tables_addSession]
          exact .createAgain hconf hseq
        · rename_i hconf
          rw [tables_addSession, tables_confirmIncarnation]
          exact .createFirst (Bool.eq_false_iff.mpr hconf) hseq

theorem change_confirmClient (reply : Bytes) :
    Change cfg s.tables (.confirmClient c clientid reply) (s.confirmClient cfg c clientid reply).1.tables := by
  unfold confirmClient
  split
  · exact .confirmRefused
  · rw [tables_modClient]
    exact .cacheReply

theorem change_destroySession (id : SessionId) (connId : UInt64) :
    Change cfg s.tables (.destroySession id connId) (s.destroySession id connId).1.tables := by
  unfold destroySession
  split
  · exact .destroyNoSession
  · rename_i session hfind
    split
    · rw [tables_eraseSession]
      exact .destroySession (c := session.client) (by simp [tables, hfind])
    · exact .destroyNoSession

theorem tables_removed :
    (((s.unpersistClient cfg c).clearSlot c).unindex cfg c).tables = s.tables.remove cfg c := by
  rw [tables_unindex, tables_clearSlot, tables_unpersistClient]
  rfl

theorem change_destroyClient :
    Change cfg s.tables (.destroyClient c clientid) (s.destroyClient cfg c clientid).1.tables := by
  unfold destroyClient
  dsimp only
  split
  · exact .destroyRefused
  · rename_i hreg
    rw [not_not] at hreg
    split
    · exact .destroyRefused
    · rename_i hbusy
      push Not at hbusy
      rw [tables_unindex, tables_clearCourtesy, tables_clearSlot, tables_unpersistClient]
      exact .destroyClient hreg hbusy.1 hbusy.2

theorem change_scanClient (now : Int) (c : ClientRef) (due : List ClientRef) (timedOut : List UInt64) :
    Change cfg s.tables (.scanClient now c due timedOut) (s.scanClient cfg now c due timedOut).1.tables := by
  unfold scanClient
  dsimp only
  split
  · exact .scanKept
  · rename_i hgone
    push Not at hgone
    split
    · rw [tables_armLeaseCheck]
      exact .scanKept
    · split
      · rename_i hidle
        rw [Bool.not_eq_true'] at hidle
        rw [tables_removed]
        exact .scanLapsed hgone.1 (Bool.eq_false_iff.mpr hgone.2) hidle
      · rw [tables_armLeaseCheck, tables_tally, tables_modClient_of_view s rfl]
        exact .scanKept

theorem change_expireSection (reason : Reason) :
    Change cfg s.tables (.expireSection c clientid reason) (s.expireSection cfg c clientid).1.tables := by
  unfold expireSection
  dsimp only
  split
  · rename_i hgone
    exact .expireStale hgone
  · rename_i hgone
    push Not at hgone
    rw [tables_unindex, tables_clearSlot, tables_retire]
    exact .expire hgone.1 (Bool.eq_false_iff.mpr hgone.2)

/-! ### States -/

theorem change_unlinkState (r : StateRef) (fromClient handover : Bool) :
    Change cfg s.tables (.unlinkState r fromClient handover) (s.unlinkState r fromClient handover).1.tables := by
  cases hclosed : (s.states r).closed with
  | true =>
    simp only [unlinkState, hclosed, if_true]
    exact .unlinkAgain hclosed
  | false =>
    rw [tables_unlinkState s hclosed]
    exact .close hclosed

theorem not_dead_iff (s : Shared) (r : StateRef) : s.dead r = false ↔ s.tables.Live r := by
  unfold dead
  rw [Bool.or_eq_false_iff]
  rfl

theorem shareConflict_eq_false (access deny : ShareBits) (other : StateRec) :
    shareConflict access deny other = false ↔ access &&& other.deny = 0 ∧ deny &&& other.access = 0 := by
  simp [shareConflict]

/-- What the loop has established when it reaches the end: `mine` is one of the caller's own live opens,
and every other live open is compatible with the request. -/
theorem arbitrate_granted {c : ClientRef} {args : OpenArgs} {opens : List StateRef} {mine : Option StateRef}
    (hdenied : (s.arbitrate c args mine opens).denied = false)
    (hcourtesy : (s.arbitrate c args mine opens).courtesyConflict = none) :
    (∀ r ∈ opens, s.tables.Live r → ¬((s.states r).client = c ∧ (s.states r).owner = args.owner) →
      args.access &&& (s.states r).deny = 0 ∧ args.deny &&& (s.states r).access = 0) ∧
    (∀ r, (s.arbitrate c args mine opens).mine = some r → mine = some r ∨
      r ∈ opens ∧ s.tables.Live r ∧ (s.states r).client = c ∧ (s.states r).owner = args.owner) ∧
    ((s.arbitrate c args mine opens).mine = none → mine = none ∧
      ∀ r ∈ opens, s.tables.Live r → ¬((s.states r).client = c ∧ (s.states r).owner = args.owner)) := by
  induction opens generalizing mine with
  | nil => exact ⟨by simp, fun r h => Or.inl h, fun h => ⟨h, by simp⟩⟩
  | cons r rest ih =>
    unfold arbitrate at hdenied hcourtesy ⊢
    split at hdenied
    · rename_i hdead
      have hnot : ¬s.tables.Live r := fun hlive => by simp [(not_dead_iff s r).mpr hlive] at hdead
      rw [if_pos hdead] at hcourtesy ⊢
      obtain ⟨hcompat, hmine, hnone⟩ := ih hdenied hcourtesy
      refine ⟨?_, ?_, ?_⟩
      · exact List.forall_mem_cons.mpr ⟨fun h => absurd h hnot, hcompat⟩
      · exact fun r' h => (hmine r' h).imp id fun h => ⟨List.mem_cons_of_mem _ h.1, h.2⟩
      · exact fun h => ⟨(hnone h).1, List.forall_mem_cons.mpr ⟨fun h => absurd h hnot, (hnone h).2⟩⟩
    · rename_i hdead
      rw [if_neg hdead] at hcourtesy ⊢
      have hlive : s.tables.Live r := (not_dead_iff s r).mp (by simpa using hdead)
      split at hdenied
      · rename_i hown
        rw [if_pos hown] at hcourtesy ⊢
        obtain ⟨hcompat, hmine, hnone⟩ := ih hdenied hcourtesy
        refine ⟨?_, ?_, ?_⟩
        · exact List.forall_mem_cons.mpr ⟨fun _ h => absurd hown h, hcompat⟩
        · intro r' h
          rcases hmine r' h with h | h
          · obtain rfl := Option.some.inj h
            exact Or.inr ⟨List.mem_cons_self .., hlive, hown⟩
          · exact Or.inr ⟨List.mem_cons_of_mem _ h.1, h.2⟩
        · exact fun h => absurd (hnone h).1 (by simp)
      · rename_i hown
        rw [if_neg hown] at hcourtesy ⊢
        split at hdenied
        · rename_i hconflict
          rw [if_pos hconflict] at hcourtesy
          split at hdenied
          · rename_i hcourt
            simp [hcourt] at hcourtesy
          · simp at hdenied
        · rename_i hconflict
          rw [if_neg hconflict] at hcourtesy ⊢
          obtain ⟨hcompat, hmine, hnone⟩ := ih hdenied hcourtesy
          have hfree := (shareConflict_eq_false _ _ _).mp (by simpa using hconflict)
          refine ⟨?_, ?_, ?_⟩
          · exact List.forall_mem_cons.mpr ⟨fun _ _ => hfree, hcompat⟩
          · exact fun r' h => (hmine r' h).imp id fun h => ⟨List.mem_cons_of_mem _ h.1, h.2⟩
          · exact fun h => ⟨(hnone h).1, List.forall_mem_cons.mpr ⟨fun _ => hown, (hnone h).2⟩⟩

theorem change_openArbitrate (args : OpenArgs) (attempt : Nat) :
    Change cfg s.tables (.openArbitrate c args attempt) (s.openArbitrate cfg c args attempt).1.tables := by
  unfold openArbitrate
  dsimp only
  split
  · exact .openRefused
  · rename_i hcourtesy
    split
    · exact .openRefused
    · rename_i hdenied
      split
      · exact .openRefused
      · obtain ⟨hcompat, hmine, hnone⟩ := arbitrate_granted (Bool.eq_false_iff.mpr hdenied) hcourtesy
        rw [← fileAt_tables] at hcompat hmine hnone
        split
        · rename_i r hr
          obtain ⟨hmem, hlive, hclient, howner⟩ := (hmine r hr).resolve_left (by simp)
          rw [tables_openMerge]
          exact .openMerge hcompat hmem hlive hclient howner
        · rename_i hr
          rw [tables_openCreate]
          exact .openNew hcompat (hnone hr).2

theorem change_register {f : Frame} {c : ClientRef} {r : StateRef} (hf : f.Tracks c r)
    (refused accepted : List Frame) : Change cfg s.tables f (s.register cfg c r refused accepted).1.tables := by
  unfold register
  split
  · rename_i hexp
    exact .trackRefused hf hexp
  · rename_i hexp
    rw [tables_trackState]
    exact .track hf (Bool.eq_false_iff.mpr hexp)

theorem change_grantTrack (r : StateRef) :
    Change cfg s.tables (.grantTrack c r) (s.grantTrack c r).1.tables := by
  unfold grantTrack
  split
  · rename_i hexp
    exact .trackRefused .deleg hexp
  · rename_i hexp
    rw [tables_trackState]
    exact .track .deleg (Bool.eq_false_iff.mpr hexp)

theorem change_grantClient (args : GrantArgs) :
    Change cfg s.tables (.grantClient c args) (s.grantClient cfg c args).1.tables := by
  unfold grantClient
  split
  · exact .grantRefused
  · exact .grantMint

theorem change_grantFile (other : StateOther) (args : GrantArgs) :
    Change cfg s.tables (.grantFile c other args) (s.grantFile c other args).1.tables := by
  unfold grantFile
  split
  · exact .grantBlocked
  · rw [tables_publish]
    exact .grantNew

theorem change_startRecall (r : StateRef) : Change cfg s.tables (.startRecall r) (s.startRecall cfg r).tables := by
  rw [tables_startRecall]
  split
  · exact .recallAgain
  · exact .recallFirst

theorem change_sweepRecalls : Change cfg s.tables .sweepRecalls s.sweepRecalls.1.tables := by
  have hwatch : ∀ r ∈ s.sweepRecalls.1.recallWatch, r ∈ s.recallWatch :=
    fun _ hr => List.mem_of_mem_filter (List.mem_of_mem_filter hr)
  exact .sweep hwatch

theorem mem_live_locks {ctx : LockCtx} {l : StateRef} :
    l ∈ (s.fileAt ctx.args.file).locks.filter (fun l =>
      !(s.states l).closed && sameOwner (s.states l).lowner ctx.lowner) ↔
      l ∈ (s.tables.fileAt ctx.args.file).locks ∧ (s.states l).closed = false ∧
        sameOwner (s.states l).lowner ctx.lowner = true := by
  rw [fileAt_tables]
  simp

theorem lockRecord_some {ctx : LockCtx} {l : StateRef} (h : s.lockRecord ctx = some l) :
    ctx.lockRec = some l ∨ ctx.lockRec = none ∧ l ∈ (s.tables.fileAt ctx.args.file).locks ∧
      (s.states l).closed = false ∧ sameOwner (s.states l).lowner ctx.lowner = true := by
  rw [lockRecord, Option.or_eq_some_iff] at h
  exact h.imp id fun h => ⟨h.1, mem_live_locks.mp (List.mem_of_getLast? h.2)⟩

theorem change_lockFile (ctx : LockCtx) : Change cfg s.tables (.lockFile ctx) (s.lockFile cfg ctx).1.tables := by
  unfold lockFile
  split
  · rename_i hnone
    rw [lockRecord, Option.or_eq_none_iff, List.getLast?_eq_none_iff] at hnone
    rw [tables_lockCreate]
    refine .lockNew hnone.1 fun l hl hopen => ?_
    by_contra hsame
    have hfound := mem_live_locks.mpr ⟨hl, hopen, (Bool.not_eq_false _).mp hsame⟩
    rw [hnone.2] at hfound
    exact absurd hfound List.not_mem_nil
  · rename_i l hsome
    rw [tables_bumpSeqid, tables_touchFile]
    exact .lockReuse (lockRecord_some hsome)

/-! ### Every frame -/

theorem exec_change (s : Shared) (cfg : Config) (input : Input) (f : Frame) :
    Change cfg s.tables f (s.exec cfg input f).1.tables := by
  have hquiet : ∀ {f : Frame} {s' : Shared}, f.Quiet → s'.tables = s.tables → Change cfg s.tables f s'.tables :=
    fun hf hs => by
      rw [hs]
      exact .quiet hf
  cases f with
  | exchangeId args => exact change_exchangeId args
  | createClient c args => exact change_createClient c args _
  | createInsert id session =>
    exact (tables_createInsert s id session).symm ▸ .insertSession
  | eraseSession id => exact (tables_eraseSession s id).symm ▸ .eraseSession
  | confirmClient c clientid reply => exact change_confirmClient c clientid reply
  | destroySession id connId => exact change_destroySession id connId
  | destroySessionClient c id => exact (tables_destroySessionClient s c id).symm ▸ .dropSession
  | destroyClient c clientid => exact change_destroyClient c clientid
  | forgetLockOwners clientid => exact (tables_forgetLockOwners s clientid).symm ▸ .forgetLockOwners
  | scanClient now c due timedOut => exact change_scanClient now c due timedOut
  | expireSection c clientid reason => exact change_expireSection c clientid reason
  | unpersistClient c => exact (tables_unpersistClient cfg s c).symm ▸ .unpersist
  | unlinkState r fromClient handover => exact change_unlinkState r fromClient handover
  | unlinkFile r fromClient handover => exact (tables_dropFromFile s r).symm ▸ .dropFromFile
  | unlinkLocks r => exact .releaseLocks
  | untrackState r handover => exact (tables_untrack s r).symm ▸ .untrack
  | openArbitrate c args attempt => exact change_openArbitrate c args attempt
  | openInsert c r => exact (tables_insertState s r).symm ▸ .insert .openRec
  | grantInsert c r => exact (tables_insertState s r).symm ▸ .insert .deleg
  | lockInsert c l => exact (tables_insertState s l).symm ▸ .insert .lockRec
  | openTrack c r => exact change_register .openRec _ _
  | grantTrack c r => exact change_grantTrack c r
  | lockTrack c l => exact change_register .lockRec _ _
  | grantClient c args => exact change_grantClient c args
  | grantFile c other args => exact change_grantFile c other args
  | startRecall r => exact change_startRecall r
  | sweepRecalls => exact change_sweepRecalls
  | downgradeWrite r other access deny => exact (tables_downgradeWrite s r access deny).symm ▸ .downgrade
  | lockArbitrate ctx before attempt => exact .lockArbitrate
  | lockRestore ctx before => exact .lockRestore
  | lockRelock ctx seg => exact .lockRelock
  | lockuRange r other range => exact .unlock
  | lockRemember ctx => exact (tables_lockRemember s ctx).symm ▸ .lockRemember
  | lockFile ctx => exact change_lockFile ctx
  | persistClient c => exact hquiet trivial (tables_persistClient cfg s c)
  | bindConn id connId => exact hquiet trivial (tables_modSession s fun _ => rfl)
  | bindBackchannel id chan => exact hquiet trivial (tables_modSession s fun _ => rfl)
  | runRecall => exact hquiet trivial (tables_runRecall s)
  | sendClaim id cb => exact hquiet trivial (tables_sendClaim cfg s id cb)
  | sendCall id slotSeq chan cb => exact hquiet trivial (tables_sendCall s id slotSeq chan cb)
  | sendReply id sent => exact hquiet trivial (tables_modHeld s fun _ => rfl)
  | reclaimClient c clientid => exact hquiet trivial (tables_reclaimClient cfg s c clientid)
  | sequenceBegin args => exact hquiet trivial (tables_sequenceBegin cfg s args)
  | sequenceAbort id slotid => exact hquiet trivial (tables_modSlot s _ _ _)
  | sequenceComplete id slotid seqid cache reply => exact hquiet trivial (tables_modSlot s _ _ _)
  | unlinkDeleg r => exact hquiet trivial (tables_unlinkDeleg s r)
  | openGrace c args reclaimDone heldStates => exact hquiet trivial (tables_noteGrace s)
  | grantReadDeleg args => exact hquiet trivial (tables_grantReadDeleg cfg s args)
  | grantCount c r dead firstInFs => exact hquiet trivial (tables_grantCount cfg s c r dead firstInFs)
  | lockGrace c args reclaimDone heldStates => exact hquiet trivial (tables_noteGrace s)
  | checkIo sid clientid file need => exact hquiet trivial (tables_checkIo cfg s sid clientid file need)
  | lockRefused ctx answer => exact hquiet trivial (tables_lockRefused s ctx answer)
  | lockuBump r other => exact hquiet trivial (tables_bumpSeqid s r)
  | scanLeases => exact hquiet trivial (tables_scanLeases s)
  | scanDue now due timedOut => exact hquiet trivial (tables_scanDue cfg s now due timedOut)
  | releaseVictims fsid until_ victims => exact hquiet trivial (tables_releaseVictims s fsid until_ victims)
  | armGrace fsid => exact hquiet trivial (tables_loadGraceList cfg s fsid _)
  | _ => exact .quiet trivial

end Shared

end LightNfs
