import LightNfs.State.Wellformed

/-!
# What a pending frame may rely on

The locals of a suspended task were checked when it read them. `Frame.Wf` collects what stays true of them
whatever the other tasks do; together with valid tables it survives every change.
-/

namespace LightNfs

namespace Tables

/-- A confirmed client whose id the request gave. -/
def Caller (t : Tables) (c : ClientRef) (clientid : UInt64) : Prop :=
  t.Client c clientid ∧ (t.clients c).confirmed = true

/-- A LOCK request resolved to its owner, its open and the lock state it named. -/
structure LockOk (t : Tables) (ctx : LockCtx) : Prop where
  client : t.Caller ctx.client ctx.args.clientid
  openRec : t.State ctx.openRec ctx.client .kOpen
  openKey : (t.states ctx.openRec).key = ctx.args.file
  lowner : ctx.lowner = makeLowner ctx.args.clientid ctx.ownerBytes
  lockRec : ∀ l, ctx.lockRec = some l → t.State l ctx.client .kLock ∧ (t.states l).key = ctx.args.file ∧
    (t.states l).lowner = ctx.lowner ∧ (t.states l).parentOpen = some ctx.openRec

end Tables

namespace Frame

def Wf (t : Tables) : Frame → Prop
  | createClient c args => t.Client c args.clientid
  | createInsert id session => t.Client session.client id.clientid
  | confirmClient c clientid _ => t.Client c clientid
  | destroySessionClient c id => t.Client c id.clientid
  | destroyClient c clientid => t.Client c clientid
  | reclaimClient c clientid => t.Client c clientid
  | unlinkState r _ _ => r < t.stateRefs
  | unlinkFile r _ _ => t.Closed r
  | unlinkLocks r => t.Closed r ∧ (t.states r).type = .kLock
  | unlinkDeleg r => t.Closed r ∧ (t.states r).type = .kDeleg
  | untrackState r _ => t.Closed r
  | openGate c args => t.Caller c args.clientid
  | openGrace c args _ _ => t.Caller c args.clientid
  | openArbitrate c args _ => t.Caller c args.clientid
  | openInsert c r => t.State r c .kOpen
  | openTrack c r => t.State r c .kOpen
  | startRecall r => r < t.stateRefs ∧ (t.states r).type = .kDeleg
  | grantClient c args => t.Client c args.session.clientid
  | grantFile c _ args => t.Client c args.session.clientid
  | grantInsert c r => t.State r c .kDeleg
  | grantTrack c r => t.State r c .kDeleg
  | grantCount c r _ _ => t.State r c .kDeleg
  | closeCheck r _ _ _ => r < t.stateRefs
  | downgradeCheck r _ _ _ _ _ => r < t.stateRefs
  | downgradeWrite r _ _ _ => r < t.stateRefs ∧ (t.states r).type = .kOpen
  | freeCheck r _ => r < t.stateRefs
  | lockGate c args => t.Caller c args.clientid
  | lockGrace c args _ _ => t.Caller c args.clientid
  | lockState c args _ => t.Caller c args.clientid
  | lockCheck c args _ r => t.Caller c args.clientid ∧ r < t.stateRefs
  | lockCaps ctx => t.LockOk ctx
  | lockBefore ctx => t.LockOk ctx
  | lockArbitrate ctx _ _ => t.LockOk ctx
  | lockConflict ctx _ _ _ => t.LockOk ctx
  | lockPush ctx _ => t.LockOk ctx
  | lockRestore ctx _ => t.LockOk ctx
  | lockRelock ctx _ => t.LockOk ctx
  | lockRemember ctx => t.LockOk ctx
  | lockFile ctx => t.LockOk ctx
  | lockInsert c l => t.State l c .kLock
  | lockTrack c l => t.State l c .kLock
  | lockuCheck r _ _ _ _ => r < t.stateRefs
  | lockuBump r _ => r < t.stateRefs ∧ (t.states r).type = .kLock
  | ioCheck r _ _ _ _ => r < t.stateRefs
  | lockuRange r _ _ => r < t.stateRefs ∧ (t.states r).type = .kLock
  | scanDue _ due _ => ∀ c ∈ due, c < t.clientRefs
  | scanClient _ c due _ => c < t.clientRefs ∧ ∀ c ∈ due, c < t.clientRefs
  | expireSection c clientid _ => t.Client c clientid
  | unpersistClient c => c < t.clientRefs ∧ (t.clients c).expired = true
  | releaseScan _ _ victims => ∀ r ∈ victims, r < t.stateRefs
  | releaseVictims _ _ victims => ∀ r ∈ victims, r < t.stateRefs
  | reply _ | tick _ | exchangeId _ | createSession _ | eraseSession _ | reapState _ | confirmCreateSession _ _
  | persistClient _ | destroySession _ _ | destroyClientid _ | forgetLockOwners _ | bindConn _ _
  | bindBackchannel _ _ | reclaimComplete _ | noteReclaimed _ | sequenceBegin _ | sequenceAbort _ _
  | sequenceComplete _ _ _ _ _ | persistFsClient _ _ | unpersistFsClient _ _ | openDelegCur _ _ | openState _ | openReply _ _
  | grantReadDeleg _ | grantSession _ | grantFind _ | delegreturn _ _ _ | delegRecallNeeded _ | delegConflict _
  | delegConflictFile _ | sweepRecalls | runRecall | recallTask _ | notifyTask _ _ _ | sendCb _ _ | sendScan _ _
  | sendClaim _ _ | sendCall _ _ _ _ | sendReply _ _ | detach _ | closeState _ _ _ | closeReply _ _ | openDowngrade _ _ _ _ _
  | stateidReply _ _ | freeStateid _ _ | lock _ | lockRefused _ _ | lockReply _ | lockt _ | locktTest _ _
  | locktConflict _ _ _ | locktProbe _ | locku _ _ _ _ | scanLeases | expireClient _ _ | checkIo _ _ _ _
  | ioAnonymous _ _ | testStateid _
  | releaseFsid _ | armGrace _ | endGrace _ => True

def AllWf (t : Tables) (fs : List Frame) : Prop := ∀ f ∈ fs, f.Wf t

namespace AllWf

variable {t : Tables} {f : Frame} {fs gs : List Frame}

theorem nil : AllWf t [] := List.forall_mem_nil _

theorem cons (hf : f.Wf t) (hfs : AllWf t fs) : AllWf t (f :: fs) := List.forall_mem_cons.mpr ⟨hf, hfs⟩

theorem one (hf : f.Wf t) : AllWf t [f] := cons hf nil

theorem append (hfs : AllWf t fs) (hgs : AllWf t gs) : AllWf t (fs ++ gs) := List.forall_mem_append.mpr ⟨hfs, hgs⟩

end AllWf

end Frame

section Stability

variable {t t' : Tables}

theorem Tables.Caller.extends {c : ClientRef} {clientid : UInt64} (h : t.Caller c clientid) (he : t.Extends t') :
    t'.Caller c clientid := ⟨h.1.extends he, he.confirmed c h.1.1 h.2⟩

theorem Tables.LockOk.extends {ctx : LockCtx} (h : t.LockOk ctx) (he : t.Extends t') : t'.LockOk ctx where
  client := h.client.extends he
  openRec := h.openRec.extends he
  openKey := (he.key h.openRec.1).trans h.openKey
  lowner := h.lowner
  lockRec l hl := by
    obtain ⟨hstate, hkey, hlow, hparent⟩ := h.lockRec l hl
    exact ⟨hstate.extends he, (he.key hstate.1).trans hkey, (he.lowner hstate.1).trans hlow,
      (he.parentOpen hstate.1).trans hparent⟩

theorem Frame.Wf.extends {f : Frame} (h : f.Wf t) (he : t.Extends t') : f.Wf t' := by
  have hs : ∀ r, r < t.stateRefs → r < t'.stateRefs := fun r hr => hr.trans_le he.stateRefs
  have hc : ∀ c, c < t.clientRefs → c < t'.clientRefs := fun c hc => hc.trans_le he.clientRefs
  cases f
  all_goals first
    | exact trivial
    | exact Tables.Client.extends h he
    | exact Tables.Caller.extends h he
    | exact Tables.State.extends h he
    | exact Tables.Closed.extends h he
    | exact Tables.LockOk.extends h he
    | exact hs _ h
    | exact ⟨Tables.Closed.extends h.1 he, (he.type h.1.1).trans h.2⟩
    | exact ⟨hs _ h.1, (he.type h.1).trans h.2⟩
    | exact ⟨Tables.Caller.extends h.1 he, hs _ h.2⟩
    | exact fun x hx => hc x (h x hx)
    | exact fun x hx => hs x (h x hx)
    | exact ⟨hc _ h.1, fun x hx => hc x (h.2 x hx)⟩
    | exact ⟨hc _ h.1, he.expired _ h.1 h.2⟩

end Stability

/-! ### One change -/

namespace Tables.Wf

variable {cfg : Config} {t t' u : Tables} {o : Bytes} {slot : OwnerSlot}

theorem vacated (h : t.Wf cfg) (hu : t.Vacated cfg o slot u) : u.Wf cfg := by
  refine h.shrink (Extends.vacated hu) ?_
  cases hu with
  | same => exact Shrinks.refl t
  | evicted => exact (Shrinks.unpersist cfg _).trans (Shrinks.unindex cfg _)

theorem confirmed_of_vacated (h : t.Wf cfg) (hu : t.Vacated cfg o slot u) {c : ClientRef}
    (hc : slot.confirmed = some c) :
    (u.byOwner o).confirmed = some c ∧ c < u.clientRefs ∧ (u.clients c).ownerId = o ∧
      (u.clients c).confirmed = true := by
  cases hu with
  | same => exact ⟨hc, h.confirmed o c hc⟩
  | evicted => exact absurd hc (by simp)

theorem byOwner_dropUnconfirmed (t : Tables) (cfg : Config) (slot : OwnerSlot) :
    (t.dropUnconfirmed cfg slot).byOwner = t.byOwner := by
  unfold dropUnconfirmed
  split <;> rfl

theorem exchangeFull (h : t.Wf cfg) (hu : t.Vacated cfg o slot u) :
    ((u.dropUnconfirmed cfg slot).setSlot o { slot with unconfirmed := none }).Wf cfg := by
  have hdrop := (h.vacated hu).shrink (Extends.dropUnconfirmed cfg slot) (Shrinks.dropUnconfirmed cfg slot)
  refine hdrop.shrink (Extends.of_heaps rfl rfl rfl rfl) (Shrinks.setSlot (fun c hc => ?_) fun c hc => ?_)
  · rw [byOwner_dropUnconfirmed]
    exact (h.confirmed_of_vacated hu hc).1
  · exact absurd hc (by simp)

theorem exchangeNew (h : t.Wf cfg) {args : ExchangeArgs} (hu : t.Vacated cfg args.ownerId slot u) :
    ((u.dropUnconfirmed cfg slot).addClient cfg args slot).Wf cfg := by
  have he : u.Extends (u.dropUnconfirmed cfg slot) := Extends.dropUnconfirmed cfg slot
  refine ((h.vacated hu).shrink he (Shrinks.dropUnconfirmed cfg slot)).addClient args slot fun c hc => ?_
  obtain ⟨-, hlt, howner, hconf⟩ := h.confirmed_of_vacated hu hc
  exact ⟨hlt.trans_le he.clientRefs, (he.ownerId c hlt).trans howner, he.confirmed c hlt hconf⟩

theorem change (h : t.Wf cfg) {f : Frame} (hf : f.Wf t) (hc : Change cfg t f t') : t'.Wf cfg := by
  have he : t.Extends t' := Extends.of_change hc
  have hmint : t.mint.Wf cfg :=
    h.shrink (Extends.of_heaps rfl rfl rfl rfl) (Shrinks.of_same rfl rfl rfl rfl rfl rfl rfl rfl rfl)
  cases hc with
  | exchangeFull hu => exact h.exchangeFull hu
  | exchangeNew hu => exact h.exchangeNew hu
  | createFirst =>
    exact (h.confirmIncarnation hf.1).shrink (Extends.addSession _ _ _)
      (Shrinks.of_same rfl rfl rfl rfl rfl rfl rfl rfl rfl)
  | insertSession => exact h.setSession hf
  | insert hins =>
    cases hins with
    | openRec => exact h.insertState hf.1
    | deleg => exact h.insertState hf.1
    | lockRec => exact h.insertState hf.1
  | openNew => exact hmint.publish hf.1.1 fun htype => absurd htype (by simp [openView])
  | grantNew => exact h.publish hf.1 fun htype => absurd htype (by simp [delegView])
  | lockNew =>
    refine hmint.publish hf.client.1.1 fun _ => ⟨?_, _, rfl, hf.openRec, hf.openKey⟩
    exact hf.lowner.trans (by rw [← hf.client.1.2]; rfl)
  | recallFirst =>
    refine h.setWatch fun r hr => ?_
    rcases List.mem_append.mp hr with hr | hr
    · exact h.watch r hr
    · rw [List.mem_singleton.mp hr]
      exact hf
  | sweep hwatch => exact h.setWatch fun r hr => h.watch r (hwatch r hr)
  | lockRemember => exact h.rememberOwner _ hf.client.1.1
  | eraseSession | destroySession => exact h.shrink he (Shrinks.eraseSession _)
  | destroyClient | scanLapsed => exact h.shrink he (Shrinks.remove cfg _)
  | forgetLockOwners => exact h.shrink he (Shrinks.forgetLockOwners _)
  | expire =>
    exact h.shrink he (((Shrinks.setClient _ _).trans (Shrinks.clearSlot _)).trans (Shrinks.unindex cfg _))
  | unpersist => exact h.shrink he (Shrinks.unpersist cfg _)
  | close => exact h.shrink he (Shrinks.close _)
  | dropFromFile => exact h.shrink he (Shrinks.dropFromFile _)
  | lockReuse => exact h.shrink he (Shrinks.touchFile _)
  | createAgain | cacheReply | dropSession | untrack | openMerge | downgrade | track | releaseLocks | grantMint
  | lockArbitrate | lockRestore | lockRelock | unlock =>
    exact h.shrink he (Shrinks.of_same rfl rfl rfl rfl rfl rfl rfl rfl rfl)
  | quiet | exchangeRefused | createRefused | confirmRefused | destroyNoSession | destroyRefused | scanKept
  | expireStale | unlinkAgain | openRefused | trackRefused | grantRefused | grantBlocked | recallAgain => exact h

end Tables.Wf

end LightNfs
