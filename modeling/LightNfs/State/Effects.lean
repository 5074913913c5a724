import LightNfs.State.Tables

/-!
# Sections as table operations

Every section of the state manager acts on the tables as one of the operations of `Tables`. The lemmas
here are the only place where a section's body meets the tables; everything after them argues about the
operations.
-/

namespace LightNfs

open Function

namespace Shared

variable (cfg : Config) (s : Shared)

/-! ### Clients and sessions -/

variable (c : ClientRef) (r : StateRef)

@[simp] theorem tables_unindex : (s.unindex cfg c).tables = s.tables.unindex cfg c := by
  simp only [unindex, tables, Table.find_remove_update]
  rfl

@[simp] theorem tables_setSlot (ownerId : Bytes) (slot : OwnerSlot) :
    (s.setSlot ownerId slot).tables = s.tables.setSlot ownerId slot := by
  simp only [setSlot, tables]
  split
  · rename_i hempty
    rw [Table.getD_remove_update, hempty]
    rfl
  · rw [Table.getD_put_update]
    rfl

@[simp] theorem tables_clearSlot : (s.clearSlot c).tables = s.tables.clearSlot c := by
  unfold clearSlot
  split
  · rename_i hnone
    have hempty : s.tables.byOwner (s.clients c).ownerId = {} := by simp [tables, hnone]
    have hwithout : ({} : OwnerSlot).without c = {} := by simp [OwnerSlot.without]
    change s.tables = s.tables.setSlot (s.clients c).ownerId ((s.tables.byOwner (s.clients c).ownerId).without c)
    rw [hempty, hwithout, ← hempty]
    simp [Tables.setSlot]
  · rename_i slot hsome
    have hslot : s.tables.byOwner (s.clients c).ownerId = slot := by simp [tables, hsome]
    rw [tables_setSlot, ← hslot]
    rfl

@[simp] theorem tables_retire : (s.retire c).tables = s.tables.retire c := by
  have hview : ((s.clearCourtesy c).clients c).view = (s.clients c).view :=
    congrFun (congrArg Tables.clients (tables_clearCourtesy s c)) c
  unfold retire
  rw [tables_modClient, tables_clearCourtesy]
  simp only [Tables.retire, ClientRec.view, ClientView.mk.injEq] at hview ⊢
  obtain ⟨h1, h2, h3, h4, h5, h6, -, -, -, h10⟩ := hview
  rw [h1, h2, h3, h4, h5, h6, h10]
  rfl

theorem tables_foldl_stableErase (fsids : List UInt32) :
    (fsids.foldl (fun s fsid => s.stableErase fsid (s.clients c).ownerId) s).tables = s.tables := by
  induction fsids generalizing s with
  | nil => rfl
  | cons fsid rest ih => exact ih _

theorem clients_foldl_stableErase (fsids : List UInt32) :
    (fsids.foldl (fun s fsid => s.stableErase fsid (s.clients c).ownerId) s).clients = s.clients := by
  induction fsids generalizing s with
  | nil => rfl
  | cons fsid rest ih => exact ih _

@[simp] theorem tables_unpersistClient :
    (s.unpersistClient cfg c).tables = s.tables.unpersist cfg c := by
  unfold unpersistClient Tables.unpersist
  split
  · rw [tables_modClient, tables_foldl_stableErase, clients_foldl_stableErase]
    rfl
  · rfl

@[simp] theorem tables_dropUnconfirmed (slot : OwnerSlot) :
    (s.dropUnconfirmed cfg slot).tables = s.tables.dropUnconfirmed cfg slot := by
  unfold dropUnconfirmed Tables.dropUnconfirmed
  cases slot.unconfirmed with
  | none => rfl
  | some u => exact tables_unindex cfg s u

theorem view_update (clients : ClientRef → ClientRec) (c : ClientRef) (client : ClientRec) :
    (fun c' => (update clients c client c').view) =
      update (fun c' => (clients c').view) c client.view := by
  funext c'
  rw [update_apply, update_apply]
  split <;> rfl

@[simp] theorem tables_addClient (args : ExchangeArgs) (slot : OwnerSlot) :
    (s.addClient cfg args slot).tables = s.tables.addClient cfg args slot := by
  simp only [addClient, tables_armLeaseCheck]
  simp only [tables, view_update]
  rw [Table.getD_put_update, Table.find_put_update, Table.find_put_update]
  rfl

@[simp] theorem tables_retireOld : (s.retireOld cfg c).tables = s.tables.retireOld cfg c := by
  have hold : s.oldIncarnation c = s.tables.oldIncarnation c := rfl
  unfold retireOld Tables.retireOld
  rw [hold]
  cases s.tables.oldIncarnation c with
  | none => rfl
  | some old => rw [tables_unindex, tables_retire]

theorem byOwner_retireOld : (s.retireOld cfg c).byOwner = s.byOwner := by
  unfold retireOld
  split
  · unfold unindex retire clearCourtesy
    split <;> rfl
  · rfl

@[simp] theorem tables_confirmIncarnation :
    (s.confirmIncarnation cfg c).tables = s.tables.confirmIncarnation cfg c := by
  have hset : ∀ (u : Shared) (o : Bytes) (slot : OwnerSlot),
      { u with byOwner := u.byOwner.put o slot }.tables = u.tables.setSlot o slot := by
    intro u o slot
    simp only [tables, Table.getD_put_update]
    rfl
  have hview : ((s.retireOld cfg c).clients c).view = (s.tables.retireOld cfg c).clients c :=
    congrFun (congrArg Tables.clients (tables_retireOld cfg s c)) c
  simp only [confirmIncarnation, tables_modClient, ← byOwner_retireOld cfg s c]
  rw [hset, tables_retireOld, byOwner_retireOld]
  simp only [Tables.confirmIncarnation, Tables.setSlot]
  rw [← hview]
  rfl

@[simp] theorem tables_addSession (args : CreateArgs) (id : SessionId) :
    (s.addSession cfg c args id).tables = s.tables.addSession c args id := by
  simp only [addSession, tables_renew, tables_modClient]
  rfl

@[simp] theorem tables_createInsert (id : SessionId) (session : SessionRec) :
    (s.createInsert id session).tables = s.tables.setSession id (some session.client) := by
  simp only [createInsert, tables, Table.map_put_update]
  rfl

@[simp] theorem tables_eraseSession (id : SessionId) : (s.eraseSession id).tables = s.tables.setSession id none := by
  unfold eraseSession
  split
  · rename_i hnone
    have hsession : s.tables.sessions id = none := by simp [tables, hnone]
    rw [Tables.setSession, ← hsession, update_eq_self]
  · simp only [tables, Table.map_remove_update]
    rfl

@[simp] theorem tables_destroySessionClient (id : SessionId) :
    (s.destroySessionClient c id).tables = s.tables.dropSession c id := tables_modClient s c _

@[simp] theorem tables_forgetLockOwners (clientid : UInt64) :
    (s.forgetLockOwners clientid).tables = s.tables.forgetLockOwners clientid := by
  have howners : (fun id => ((s.lockOwners.removeIf fun o => (s.clients o.client).clientid == clientid).find id).map
      LockOwnerRec.client) =
      fun id => ((s.lockOwners.find id).map LockOwnerRec.client).filter fun c => (s.clients c).clientid ≠ clientid := by
    funext id
    rw [Table.find_removeIf]
    cases s.lockOwners.find id with
    | none => rfl
    | some o =>
      by_cases h : (s.clients o.client).clientid = clientid <;> simp [Option.filter, h]
  simp only [forgetLockOwners, tables, howners]
  rfl

/-! ### States and files -/

theorem fileAt_tables (key : FileKey) : s.tables.fileAt key = s.fileAt key := rfl

@[simp] theorem tables_trackState : (s.trackState c r).tables = s.tables.track c r := by
  simp only [trackState, tables_modClient, ClientRec.view, Table.getD_put_update]
  rfl

@[simp] theorem tables_untrack : (s.untrack r).tables = s.tables.untrack r := by
  have hheld : (fun fsid => (((if s.heldIn (s.states r).client (s.states r).fsid ≤ 1 then
      (s.clients (s.states r).client).fsStates.remove (s.states r).fsid
      else (s.clients (s.states r).client).fsStates.put (s.states r).fsid
        (s.heldIn (s.states r).client (s.states r).fsid - 1)).find fsid).getD 0)) =
      update (fun fsid => ((s.clients (s.states r).client).fsStates.find fsid).getD 0) (s.states r).fsid
        (s.heldIn (s.states r).client (s.states r).fsid - 1) := by
    split
    · rename_i hle
      rw [Table.getD_remove_update, Nat.sub_eq_zero_of_le hle]
    · rw [Table.getD_put_update]
  simp only [untrack, tables_modClient, ClientRec.view, hheld]
  rfl

@[simp] theorem tables_insertState : (s.insertState r).tables = s.tables.insertState r := by
  simp only [insertState, tables, Table.find_put_update]
  rfl

theorem tables_unlinkState {r : StateRef} (h : (s.states r).closed = false) (fromClient handover : Bool) :
    (s.unlinkState r fromClient handover).1.tables = s.tables.close r := by
  simp only [unlinkState, h, Bool.false_eq_true, if_false, tables_modState]
  simp only [tables, Table.find_remove_update]
  rfl

@[simp] theorem tables_dropFromFile : (s.dropFromFile r).tables = s.tables.dropFromFile r := by
  have hfind : s.tables.files (s.tables.states r).key = s.files.find (s.states r).key := rfl
  simp only [dropFromFile, Tables.dropFromFile, hfind]
  cases s.files.find (s.states r).key with
  | none => rfl
  | some file =>
    have hdrop : file.drop (s.tables.states r).type r = file.drop (s.states r).type r := rfl
    simp only [hdrop]
    split
    · simp only [tables, Table.find_remove_update]
      rfl
    · simp only [setFile, tables, Table.find_put_update]
      rfl

@[simp] theorem tables_unlinkLocks : (s.unlinkLocks r).tables =
    s.tables.setLocks (s.locks.releaseOwner (s.states r).key (s.states r).lowner).1 := rfl

@[simp] theorem tables_unlinkDeleg : (s.unlinkDeleg r).tables = s.tables := by
  unfold unlinkDeleg
  rw [tables_tally]
  apply tables_modClient_of_view
  rfl

theorem tables_publish (rec : StateRec) : (s.publish rec).tables = s.tables.publish rec.view := by
  have hstates : (fun r => (update s.states s.stateRefs rec r).view) =
      update (fun r => (s.states r).view) s.stateRefs rec.view := by
    funext r
    rw [update_apply, update_apply]
    split <;> rfl
  simp only [publish, tables, hstates, Table.find_put_update]
  rfl

@[simp] theorem tables_openMerge (args : OpenArgs) (r : StateRef) : (s.openMerge args r).tables =
    s.tables.setShare r ((s.states r).access ||| args.access) ((s.states r).deny ||| args.deny) :=
  tables_modState s r _

@[simp] theorem tables_downgradeWrite (access deny : ShareBits) :
    (s.downgradeWrite r access deny).tables = s.tables.setShare r access deny := tables_modState s r _

@[simp] theorem tables_openCreate (args : OpenArgs) : (s.openCreate cfg c args).tables =
    s.tables.mint.publish (Tables.openView c args (s.tables.newOther cfg .kOpen)) := tables_publish _ _

@[simp] theorem tables_lockCreate (ctx : LockCtx) : (s.lockCreate cfg ctx).tables =
    s.tables.mint.publish (Tables.lockView ctx (s.tables.newOther cfg .kLock)) := tables_publish _ _

@[simp] theorem tables_touchFile (key : FileKey) : (s.touchFile key).tables = s.tables.touchFile key := by
  simp only [touchFile, setFile, tables, Table.find_put_update]
  rfl

@[simp] theorem tables_lockRemember (ctx : LockCtx) :
    (s.lockRemember ctx).1.tables = s.tables.rememberOwner ctx.lowner ctx.client := by
  simp only [lockRemember, tables, Table.map_put_update]
  rfl

end Shared

end LightNfs
