import LightNfs.State.Change

/-!
# What the tables forget

Leases, state sequence ids, recalls, the delegation counter and the reclaim lists. `Effect` says, section by
section, what happens to them, together with the table operation where the same decision settles both.
-/

namespace LightNfs

open Function

structure Details where
  clock : Nat
  courtesy : ClientRef → Bool
  leaseExpiry : ClientRef → Int
  persisted : ClientRef → Bool
  seqid : StateRef → UInt32
  recalled : StateRef → Bool
  recallDeadline : StateRef → Int
  delegs : Int
  stable : UInt32 → List Bytes

def Shared.details (s : Shared) : Details where
  clock := s.clock
  courtesy c := (s.clients c).courtesy
  leaseExpiry c := (s.clients c).leaseExpiry
  persisted c := (s.clients c).persisted
  seqid r := (s.states r).seqid
  recalled r := (s.states r).recalled
  recallDeadline r := (s.states r).recallDeadline
  delegs := s.gauges.delegs
  stable := s.stable

namespace Details

variable (cfg : Config) (d : Details)

def now : Int := d.clock / 1000000000

def setCourtesy (c : ClientRef) (courtesy : Bool) : Details :=
  { d with courtesy := update d.courtesy c courtesy }

def renew (c : ClientRef) : Details :=
  { d.setCourtesy c false with leaseExpiry := update d.leaseExpiry c (d.now + cfg.leaseSeconds.toNat) }

def addClient (c : ClientRef) : Details :=
  { d.renew cfg c with persisted := update d.persisted c false }

def persist (c : ClientRef) : Details := { d with persisted := update d.persisted c true }

/-- The incarnation a new one replaces is no courtesy client any more. -/
def retireOld (old : Option ClientRef) : Details := old.elim d fun o => d.setCourtesy o false

def addState (r : StateRef) : Details :=
  { d with
    seqid := update d.seqid r 1
    recalled := update d.recalled r false
    recallDeadline := update d.recallDeadline r 0 }

def bump (r : StateRef) : Details := { d with seqid := update d.seqid r (d.seqid r + 1) }

def startRecall (r : StateRef) : Details :=
  { d with
    recalled := update d.recalled r true
    recallDeadline := update d.recallDeadline r (d.now + cfg.leaseSeconds.toNat) }

def put (fsid : UInt32) (ownerId : Bytes) : Details :=
  { d with stable := update d.stable fsid (d.stable fsid ∪ [ownerId]) }

def erase (fsid : UInt32) (ownerId : Bytes) : Details :=
  { d with stable := update d.stable fsid ((d.stable fsid).filter (· ≠ ownerId)) }

/-- `unpersist_client`, for a client with entries for the exports `fsids`. -/
def unpersist (ownerId : Bytes) (fsids : List UInt32) : Details :=
  if cfg.perFsidReclaim then fsids.foldl (fun d fsid => d.erase fsid ownerId) d else d.erase 0 ownerId

theorem foldl_erase_eq (ownerId : Bytes) (fsids : List UInt32) (d : Details) :
    fsids.foldl (fun d fsid => d.erase fsid ownerId) d =
      { d with stable := (fsids.foldl (fun d fsid => d.erase fsid ownerId) d).stable } := by
  induction fsids generalizing d with
  | nil => rfl
  | cons fsid rest ih =>
    rw [List.foldl_cons]
    exact ih (d.erase fsid ownerId)

section Unpersist

variable (ownerId : Bytes) (fsids : List UInt32)

theorem unpersist_eq :
    d.unpersist cfg ownerId fsids = { d with stable := (d.unpersist cfg ownerId fsids).stable } := by
  unfold unpersist
  split
  · exact foldl_erase_eq ownerId fsids d
  · rfl

@[simp] theorem clock_unpersist : (d.unpersist cfg ownerId fsids).clock = d.clock := by
  rw [unpersist_eq]

@[simp] theorem courtesy_unpersist : (d.unpersist cfg ownerId fsids).courtesy = d.courtesy := by
  rw [unpersist_eq]

@[simp] theorem leaseExpiry_unpersist : (d.unpersist cfg ownerId fsids).leaseExpiry = d.leaseExpiry := by
  rw [unpersist_eq]

@[simp] theorem persisted_unpersist : (d.unpersist cfg ownerId fsids).persisted = d.persisted := by
  rw [unpersist_eq]

@[simp] theorem seqid_unpersist : (d.unpersist cfg ownerId fsids).seqid = d.seqid := by
  rw [unpersist_eq]

@[simp] theorem recalled_unpersist : (d.unpersist cfg ownerId fsids).recalled = d.recalled := by
  rw [unpersist_eq]

@[simp] theorem delegs_unpersist : (d.unpersist cfg ownerId fsids).delegs = d.delegs := by
  rw [unpersist_eq]

end Unpersist

end Details

/-! ### Sections on the details -/

namespace Shared

variable (cfg : Config) (s : Shared)
variable (c : ClientRef) (r : StateRef)

theorem details_modClient (f : ClientRec → ClientRec) :
    (s.modClient c f).details =
      { s.details with
        courtesy := update s.details.courtesy c (f (s.clients c)).courtesy
        leaseExpiry := update s.details.leaseExpiry c (f (s.clients c)).leaseExpiry
        persisted := update s.details.persisted c (f (s.clients c)).persisted } := by
  have hfield : ∀ {α : Type} (g : ClientRec → α),
      (fun c' => g ((s.modClient c f).clients c')) = update (fun c' => g (s.clients c')) c (g (f (s.clients c))) :=
    fun g => funext fun c' => apply_update (fun _ => g) s.clients c (f (s.clients c)) c'
  simp only [details, hfield]
  rfl

theorem details_modClient_same {c : ClientRef} {f : ClientRec → ClientRec}
    (hcourtesy : (f (s.clients c)).courtesy = (s.clients c).courtesy)
    (hexpiry : (f (s.clients c)).leaseExpiry = (s.clients c).leaseExpiry)
    (hpersisted : (f (s.clients c)).persisted = (s.clients c).persisted) : (s.modClient c f).details = s.details := by
  rw [details_modClient, hcourtesy, hexpiry, hpersisted]
  simp [details]

theorem details_modState (f : StateRec → StateRec) :
    (s.modState r f).details =
      { s.details with
        seqid := update s.details.seqid r (f (s.states r)).seqid
        recalled := update s.details.recalled r (f (s.states r)).recalled
        recallDeadline := update s.details.recallDeadline r (f (s.states r)).recallDeadline } := by
  have hfield : ∀ {α : Type} (g : StateRec → α),
      (fun r' => g ((s.modState r f).states r')) = update (fun r' => g (s.states r')) r (g (f (s.states r))) :=
    fun g => funext fun r' => apply_update (fun _ => g) s.states r (f (s.states r)) r'
  simp only [details, hfield]
  rfl

theorem details_modState_same {r : StateRef} {f : StateRec → StateRec}
    (hseqid : (f (s.states r)).seqid = (s.states r).seqid)
    (hrecalled : (f (s.states r)).recalled = (s.states r).recalled)
    (hdeadline : (f (s.states r)).recallDeadline = (s.states r).recallDeadline) :
    (s.modState r f).details = s.details := by
  rw [details_modState, hseqid, hrecalled, hdeadline]
  simp [details]

theorem details_bump {r : StateRef} {f : StateRec → StateRec}
    (hseqid : (f (s.states r)).seqid = (s.states r).seqid + 1)
    (hrecalled : (f (s.states r)).recalled = (s.states r).recalled)
    (hdeadline : (f (s.states r)).recallDeadline = (s.states r).recallDeadline) :
    (s.modState r f).details = s.details.bump r := by
  rw [details_modState, hseqid, hrecalled, hdeadline]
  simp [details, Details.bump]

theorem details_tally {f : Gauges → Gauges} (h : (f s.gauges).delegs = s.gauges.delegs) :
    (s.tally f).details = s.details := by
  simp [details, tally, h]

@[simp] theorem details_armLeaseCheck (when_ : Int) :
    (s.armLeaseCheck c when_).details = s.details := by
  simp only [armLeaseCheck]
  split
  · rfl
  · exact details_modClient_same _ rfl rfl rfl

theorem details_renew : (s.renew cfg c).details = s.details.renew cfg c := by
  have hrenewed : (s.modClient c fun client =>
      { client with leaseExpiry := s.now + cfg.leaseSeconds.toNat, courtesy := false }).details =
      s.details.renew cfg c := by
    rw [details_modClient]
    simp [details, Details.renew, Details.setCourtesy, Details.now, now]
  simp only [renew]
  split
  · rw [details_armLeaseCheck]
    exact hrenewed
  · exact hrenewed

theorem details_clearCourtesy : (s.clearCourtesy c).details = s.details.setCourtesy c false := by
  unfold clearCourtesy
  split
  · rw [details_tally _ rfl, details_modClient]
    simp [details, Details.setCourtesy]
  · next hcourtesy =>
    rw [Bool.not_eq_true] at hcourtesy
    have hsame : update s.details.courtesy c false = s.details.courtesy := by
      rw [← hcourtesy]
      exact update_eq_self c s.details.courtesy
    rw [Details.setCourtesy, hsame]

@[simp] theorem details_setSlot (ownerId : Bytes) (slot : OwnerSlot) : (s.setSlot ownerId slot).details = s.details := rfl

@[simp] theorem details_clearSlot : (s.clearSlot c).details = s.details := by
  unfold clearSlot
  split <;> rfl

@[simp] theorem details_unindex : (s.unindex cfg c).details = s.details := rfl

theorem details_retire : (s.retire c).details = s.details.setCourtesy c false := by
  rw [retire, details_modClient_same _ rfl rfl rfl, details_clearCourtesy]

@[simp] theorem details_dropUnconfirmed (slot : OwnerSlot) : (s.dropUnconfirmed cfg slot).details = s.details := by
  unfold dropUnconfirmed
  split <;> rfl

theorem details_addClient (args : ExchangeArgs) (slot : OwnerSlot) :
    (s.addClient cfg args slot).details = s.details.addClient cfg s.clientRefs := by
  have hfield : ∀ {α : Type} (g : ClientRec → α) (client : ClientRec),
      (fun c' => g (update s.clients s.clientRefs client c')) =
        update (fun c' => g (s.clients c')) s.clientRefs (g client) :=
    fun g client => funext fun c' => apply_update (fun _ => g) s.clients s.clientRefs client c'
  simp only [addClient, details_armLeaseCheck]
  simp only [details, hfield]
  rfl

theorem details_foldl_stableErase (fsids : List UInt32) :
    (fsids.foldl (fun s fsid => s.stableErase fsid (s.clients c).ownerId) s).details =
      fsids.foldl (fun d fsid => d.erase fsid (s.clients c).ownerId) s.details := by
  induction fsids generalizing s with
  | nil => rfl
  | cons fsid rest ih => exact ih _

theorem details_unpersistClient : (s.unpersistClient cfg c).details =
    s.details.unpersist cfg (s.clients c).ownerId (s.clients c).fsStates.keys := by
  unfold unpersistClient Details.unpersist
  split
  · rw [details_modClient_same _ rfl rfl rfl, details_foldl_stableErase]
  · rfl

theorem details_retireOld :
    (s.retireOld cfg c).details = s.details.retireOld (s.oldIncarnation c) := by
  unfold retireOld Details.retireOld
  split
  · next old hold =>
    rw [hold, details_unindex, details_retire]
    rfl
  · next hnone =>
    rw [hnone]
    rfl

theorem details_confirmIncarnation :
    (s.confirmIncarnation cfg c).details = s.details.retireOld (s.oldIncarnation c) := by
  rw [confirmIncarnation, details_modClient_same _ rfl rfl rfl, ← details_retireOld cfg]
  rfl

theorem details_addSession (args : CreateArgs) (id : SessionId) :
    (s.addSession cfg c args id).details = s.details.renew cfg c := by
  rw [addSession, details_renew, details_modClient_same _ rfl rfl rfl]
  rfl

theorem details_publish {rec : StateRec} (hseqid : rec.seqid = 1) (hrecalled : rec.recalled = false)
    (hdeadline : rec.recallDeadline = 0) : (s.publish rec).details = s.details.addState s.stateRefs := by
  have hfield : ∀ {α : Type} (g : StateRec → α),
      (fun r' => g ((s.publish rec).states r')) = update (fun r' => g (s.states r')) s.stateRefs (g rec) :=
    fun g => funext fun r' => apply_update (fun _ => g) s.states s.stateRefs rec r'
  simp only [details, hfield, hseqid, hrecalled, hdeadline]
  rfl

theorem details_openCreate (args : OpenArgs) :
    (s.openCreate cfg c args).details = s.details.addState s.stateRefs := by
  rw [openCreate, details_publish _ rfl rfl rfl]
  split <;> rfl

theorem details_lockCreate (ctx : LockCtx) : (s.lockCreate cfg ctx).details = s.details.addState s.stateRefs := by
  rw [lockCreate, details_publish _ rfl rfl rfl]
  split <;> rfl

theorem details_unlinkDeleg :
    (s.unlinkDeleg r).details = { s.details with delegs := s.details.delegs - 1 } := by
  have hsame : (s.modClient (s.states r).client fun client => { client with delegs := client.delegs - 1 }).details =
      s.details := details_modClient_same _ rfl rfl rfl
  rw [← hsame]
  rfl

theorem details_grantCount (dead firstInFs : Bool) :
    (s.grantCount cfg c r dead firstInFs).1.details = { s.details with delegs := s.details.delegs + 1 } := by
  have hsame : (s.modClient c fun client => { client with delegs := client.delegs + 1 }).details = s.details :=
    details_modClient_same _ rfl rfl rfl
  rw [← hsame]
  rfl

theorem details_persistClient : (s.persistClient cfg c).details =
    if cfg.perFsidReclaim then s.details else s.details.put 0 (s.clients c).ownerId := by
  unfold persistClient
  split <;> rfl

theorem details_startRecall : (s.startRecall cfg r).details =
    if (s.states r).recalled then s.details else s.details.startRecall cfg r := by
  unfold startRecall
  split
  · rfl
  · rw [details_modState]
    simp [details, Details.startRecall, Details.now, now]

@[simp] theorem details_noteGrace : s.noteGrace.details = s.details := by
  unfold noteGrace
  split <;> rfl

@[simp] theorem details_modSlot (id : SessionId) (slotid : UInt32) (f : Slot → Slot) :
    (s.modSlot id slotid f).details = s.details := by
  unfold modSlot
  split
  · rfl
  · split <;> rfl

theorem details_popDue (now : Int) (heap : List (Int × UInt64)) : (popDue now heap s).1.details = s.details := by
  induction heap generalizing s with
  | nil => rfl
  | cons entry rest ih =>
    unfold popDue
    split
    · split
      · exact ih s
      · split
        · exact ih s
        · exact (ih _).trans (details_modClient_same _ rfl rfl rfl)
    · rfl

end Shared

/-! ### What a frame does to the details -/

/-- Sections that leave the details alone. -/
def Frame.Plain : Frame → Prop
  | tick _ | exchangeId _ | createClient _ _ | confirmClient _ _ _ | persistClient _ | destroyClient _ _
  | sequenceBegin _ | unlinkDeleg _ | persistFsClient _ _ | unpersistFsClient _ _ | openArbitrate _ _ _ | startRecall _
  | grantFile _ _ _ | grantCount _ _ _ _ | downgradeWrite _ _ _ _ | lockFile _ | lockuBump _ _ | scanClient _ _ _ _
  | expireSection _ _ _ | unpersistClient _ => False
  | _ => True

namespace Shared

variable (s : Shared)

def slotOf (ownerId : Bytes) : OwnerSlot := (s.byOwner.find ownerId).getD {}

/-- CREATE_SESSION is granted: at the client's sequence, and to its principal while it is not confirmed. -/
def Creates (c : ClientRef) (args : CreateArgs) : Prop :=
  args.sequence = (s.clients c).csSequence ∧
    ((s.clients c).confirmed = true ∨ (s.clients c).principal = args.principal)

instance (c : ClientRef) (args : CreateArgs) : Decidable (s.Creates c args) := inferInstanceAs (Decidable (_ ∧ _))

/-- SEQUENCE finds a slot it may execute in or replay from. -/
def SlotReady (args : SequenceArgs) (session : SessionRec) : Prop :=
  (s.clients session.client).expired = false ∧ args.slotid.toNat < session.slots.length ∧
    args.highest.toNat < session.slots.length ∧
    (session.slot args.slotid).classify args.seqid ∉ [SlotVerdict.wait, .misordered]

instance (args : SequenceArgs) : DecidablePred (s.SlotReady args) := fun _ => inferInstanceAs (Decidable (_ ∧ _))

/-- The client whose lease the section renews. -/
def renews : Frame → Option ClientRef
  | .exchangeId args => (s.slotOf args.ownerId).confirmed.filter fun c =>
      (s.clients c).verifier = args.verifier ∧ (s.clients c).principal = args.principal
  | .createClient c args => if s.Creates c args then some c else none
  | .sequenceBegin args => ((s.sessions.find args.id).filter (s.SlotReady args)).map SessionRec.client
  | _ => none

/-- The record OPEN merges into: the caller's own, with nothing in the way. -/
def merges (c : ClientRef) (args : OpenArgs) : Option StateRef :=
  let arb := s.arbitrate c args none (s.fileAt args.file).opens
  if arb.courtesyConflict = none ∧ arb.denied = false ∧
      ¬(args.access &&& kShareWrite ≠ 0 ∧ !args.delegClaim ∧ s.liveDelegs args.file ≠ []) then arb.mine
  else none

variable {s} in
theorem merges_eq {c : ClientRef} {args : OpenArgs}
    (hcourtesy : (s.arbitrate c args none (s.fileAt args.file).opens).courtesyConflict = none)
    (hdenied : ¬(s.arbitrate c args none (s.fileAt args.file).opens).denied = true)
    (hdelegs : ¬(args.access &&& kShareWrite ≠ 0 ∧ !args.delegClaim ∧ s.liveDelegs args.file ≠ [])) :
    s.merges c args = (s.arbitrate c args none (s.fileAt args.file).opens).mine :=
  if_pos ⟨hcourtesy, Bool.eq_false_iff.mpr hdenied, hdelegs⟩

variable {s} in
theorem merges_spec {c : ClientRef} {args : OpenArgs} {r : StateRef} (h : s.merges c args = some r) :
    r ∈ (s.fileAt args.file).opens ∧ s.tables.Live r ∧ (s.states r).client = c ∧ (s.states r).owner = args.owner := by
  simp only [merges] at h
  split_ifs at h with hfree
  exact ((arbitrate_granted hfree.2.1 hfree.1).2.1 r h).resolve_left (by simp)

/-- Whether a registration has to make room first, with the details it goes on with. -/
inductive MakesRoom (cfg : Config) (s : Shared) (args : ExchangeArgs) : OwnerSlot → Tables → Details → Prop
  | same : MakesRoom cfg s args (s.slotOf args.ownerId) s.tables s.details
  | evicted {c : ClientRef} (hconf : (s.slotOf args.ownerId).confirmed = some c) (hsessions : (s.clients c).sessions = [])
      (hstates : (s.clients c).states = []) :
      MakesRoom cfg s args { s.slotOf args.ownerId with confirmed := none } ((s.tables.unpersist cfg c).unindex cfg c)
        (s.details.unpersist cfg (s.clients c).ownerId (s.clients c).fsStates.keys)

end Shared

open Shared in
inductive Effect (cfg : Config) (s : Shared) : Frame → Tables → Details → Prop
  | plain {f : Frame} {t : Tables} (hf : f.Plain) : Effect cfg s f t s.details
  | tick {n : Nat} : Effect cfg s (.tick n) s.tables { s.details with clock := s.clock + n }
  -- clients
  | exchangeRefused {args : ExchangeArgs} : Effect cfg s (.exchangeId args) s.tables s.details
  | exchangeRenew {args : ExchangeArgs} {c : ClientRef} (hrenews : s.renews (.exchangeId args) = some c) :
      Effect cfg s (.exchangeId args) s.tables (s.details.renew cfg c)
  | exchangeFull {args : ExchangeArgs} {slot : OwnerSlot} {u : Tables} {d : Details} (hu : s.MakesRoom cfg args slot u d) :
      Effect cfg s (.exchangeId args)
        ((u.dropUnconfirmed cfg slot).setSlot args.ownerId { slot with unconfirmed := none }) d
  | exchangeNew {args : ExchangeArgs} {slot : OwnerSlot} {u : Tables} {d : Details} (hu : s.MakesRoom cfg args slot u d) :
      Effect cfg s (.exchangeId args) ((u.dropUnconfirmed cfg slot).addClient cfg args slot)
        (d.addClient cfg s.clientRefs)
  | createRefused {c : ClientRef} {args : CreateArgs} : Effect cfg s (.createClient c args) s.tables s.details
  | createAgain {c : ClientRef} {args : CreateArgs} {id : SessionId} (hconf : (s.clients c).confirmed = true)
      (hcreates : s.Creates c args) :
      Effect cfg s (.createClient c args) (s.tables.addSession c args id) (s.details.renew cfg c)
  | createFirst {c : ClientRef} {args : CreateArgs} {id : SessionId} (hconf : (s.clients c).confirmed = false)
      (hcreates : s.Creates c args) :
      Effect cfg s (.createClient c args) ((s.tables.confirmIncarnation cfg c).addSession c args id)
        ((s.details.retireOld (s.oldIncarnation c)).renew cfg c)
  | confirmRefused {c : ClientRef} {clientid : UInt64} {reply : Bytes}
      (hgone : s.byId.find (cfg.ownerShard (s.clients c).ownerId, clientid) = none) :
      Effect cfg s (.confirmClient c clientid reply) s.tables s.details
  | confirmed {c : ClientRef} {clientid : UInt64} {reply : Bytes} :
      Effect cfg s (.confirmClient c clientid reply) (s.tables.cacheReply c reply) (s.details.persist c)
  | persist {c : ClientRef} :
      Effect cfg s (.persistClient c) s.tables
        (if cfg.perFsidReclaim then s.details else s.details.put 0 (s.clients c).ownerId)
  | destroyRefused {c : ClientRef} {clientid : UInt64} : Effect cfg s (.destroyClient c clientid) s.tables s.details
  | destroyed {c : ClientRef} {clientid : UInt64}
      (hreg : s.byId.find (cfg.ownerShard (s.clients c).ownerId, clientid) = some c)
      (hsessions : (s.clients c).sessions = []) (hstates : (s.clients c).states = []) :
      Effect cfg s (.destroyClient c clientid) (s.tables.remove cfg c)
        ((s.details.unpersist cfg (s.clients c).ownerId (s.clients c).fsStates.keys).setCourtesy c false)
  | sequenceSame {args : SequenceArgs} : Effect cfg s (.sequenceBegin args) s.tables s.details
  | sequenceRenew {args : SequenceArgs} {c : ClientRef} (hrenews : s.renews (.sequenceBegin args) = some c) :
      Effect cfg s (.sequenceBegin args) s.tables (s.details.renew cfg c)
  | scanKept {now : Int} {c : ClientRef} {due : List ClientRef} {timedOut : List UInt64} :
      Effect cfg s (.scanClient now c due timedOut) s.tables s.details
  | scanLapsed {now : Int} {c : ClientRef} {due : List ClientRef} {timedOut : List UInt64}
      (hreg : s.Registered cfg c) (hlease : (s.clients c).leaseExpiry ≤ now) :
      Effect cfg s (.scanClient now c due timedOut) (s.tables.remove cfg c)
        (s.details.unpersist cfg (s.clients c).ownerId (s.clients c).fsStates.keys)
  | scanCourtesy {now : Int} {c : ClientRef} {due : List ClientRef} {timedOut : List UInt64}
      (hreg : s.Registered cfg c) (hlease : (s.clients c).leaseExpiry ≤ now) :
      Effect cfg s (.scanClient now c due timedOut) s.tables (s.details.setCourtesy c true)
  | expireStale {c : ClientRef} {clientid : UInt64} {reason : Reason}
      (hgone : s.byId.find (cfg.ownerShard (s.clients c).ownerId, clientid) ≠ some c ∨ (s.clients c).expired = true) :
      Effect cfg s (.expireSection c clientid reason) s.tables s.details
  | expire {c : ClientRef} {clientid : UInt64} {reason : Reason}
      (hreg : s.byId.find (cfg.ownerShard (s.clients c).ownerId, clientid) = some c)
      (hexp : (s.clients c).expired = false) :
      Effect cfg s (.expireSection c clientid reason) (((s.tables.retire c).clearSlot c).unindex cfg c)
        (s.details.setCourtesy c false)
  | unpersist {c : ClientRef} :
      Effect cfg s (.unpersistClient c) (s.tables.unpersist cfg c)
        (s.details.unpersist cfg (s.clients c).ownerId (s.clients c).fsStates.keys)
  -- states
  | uncount {r : StateRef} : Effect cfg s (.unlinkDeleg r) s.tables { s.details with delegs := s.details.delegs - 1 }
  | count {c : ClientRef} {r : StateRef} {dead firstInFs : Bool} :
      Effect cfg s (.grantCount c r dead firstInFs) s.tables { s.details with delegs := s.details.delegs + 1 }
  | put {fsid : UInt32} {ownerId : Bytes} :
      Effect cfg s (.persistFsClient fsid ownerId) s.tables (s.details.put fsid ownerId)
  | erase {fsid : UInt32} {ownerId : Bytes} :
      Effect cfg s (.unpersistFsClient fsid ownerId) s.tables (s.details.erase fsid ownerId)
  | openRefused {c : ClientRef} {args : OpenArgs} {attempt : Nat} :
      Effect cfg s (.openArbitrate c args attempt) s.tables s.details
  | openMerge {c : ClientRef} {args : OpenArgs} {attempt : Nat} {r : StateRef}
      (hrecalled : args.access &&& kShareWrite = 0 ∨ args.delegClaim = true ∨ s.liveDelegs args.file = [])
      (hmerges : s.merges c args = some r) :
      Effect cfg s (.openArbitrate c args attempt)
        (s.tables.setShare r ((s.states r).access ||| args.access) ((s.states r).deny ||| args.deny)) (s.details.bump r)
  | openNew {c : ClientRef} {args : OpenArgs} {attempt : Nat}
      (hrecalled : args.access &&& kShareWrite = 0 ∨ args.delegClaim = true ∨ s.liveDelegs args.file = []) :
      Effect cfg s (.openArbitrate c args attempt)
        (s.tables.mint.publish (Tables.openView c args (s.tables.newOther cfg .kOpen))) (s.details.addState s.stateRefs)
  | recallAgain {r : StateRef} (hrecalled : (s.states r).recalled = true) :
      Effect cfg s (.startRecall r) s.tables s.details
  | recallFirst {r : StateRef} :
      Effect cfg s (.startRecall r) (s.tables.setWatch (s.recallWatch ++ [r])) (s.details.startRecall cfg r)
  | grantBlocked {c : ClientRef} {other : StateOther} {args : GrantArgs} :
      Effect cfg s (.grantFile c other args) s.tables s.details
  | grantNew {c : ClientRef} {other : StateOther} {args : GrantArgs} (hfree : s.grantBlocked c args.file = false) :
      Effect cfg s (.grantFile c other args) (s.tables.publish (Tables.delegView c args other))
        (s.details.addState s.stateRefs)
  | downgrade {r : StateRef} {other : StateOther} {access deny : ShareBits} :
      Effect cfg s (.downgradeWrite r other access deny) (s.tables.setShare r access deny) (s.details.bump r)
  | lockNew {ctx : LockCtx} (hnone : s.lockRecord ctx = none) :
      Effect cfg s (.lockFile ctx) (s.tables.mint.publish (Tables.lockView ctx (s.tables.newOther cfg .kLock)))
        (s.details.addState s.stateRefs)
  | lockReuse {ctx : LockCtx} {l : StateRef} (hl : s.lockRecord ctx = some l) :
      Effect cfg s (.lockFile ctx) (s.tables.touchFile ctx.args.file) (s.details.bump l)
  | unlock {r : StateRef} {other : StateOther} : Effect cfg s (.lockuBump r other) s.tables (s.details.bump r)

namespace Shared

variable (cfg : Config) (s : Shared)
variable (id : SessionId)

theorem details_eraseSession : (s.eraseSession id).details = s.details := by
  unfold eraseSession
  split <;> rfl

theorem details_modSession (f : SessionRec → SessionRec) : (s.modSession id f).1.details = s.details := by
  unfold modSession
  split <;> rfl

theorem details_modHeld (f : SessionRec → SessionRec) : (s.modHeld id f).details = s.details := by
  unfold modHeld
  split
  · rfl
  · split <;> rfl

theorem details_sendClaim (cb : Callback) : (s.sendClaim cfg id cb).1.details = s.details := by
  unfold sendClaim
  split
  · rfl
  · split
    · rfl
    · split
      · rfl
      · split
        · split
          · exact details_modHeld s id _
          · rfl
        · exact details_modHeld s id _

theorem details_sendCall (slotSeq : UInt32) (chan : UInt64) (cb : Callback) :
    (s.sendCall id slotSeq chan cb).1.details = s.details := by
  unfold sendCall
  split <;> rfl

theorem details_runRecall : s.runRecall.1.details = s.details := by
  unfold runRecall
  split <;> rfl

variable (c : ClientRef) (r : StateRef)

theorem details_trackState : (s.trackState c r).details = s.details :=
  details_modClient_same _ rfl rfl rfl

theorem details_unlinkState (fromClient handover : Bool) :
    (s.unlinkState r fromClient handover).1.details = s.details := by
  unfold unlinkState
  split
  · rfl
  · dsimp only
    rw [details_modState_same _ rfl rfl rfl]
    split <;> rfl

theorem details_dropFromFile : (s.dropFromFile r).details = s.details := by
  unfold dropFromFile
  dsimp only
  split
  · rfl
  · split <;> rfl

theorem details_register (refused accepted : List Frame) :
    (s.register cfg c r refused accepted).1.details = s.details := by
  unfold register
  split
  · rfl
  · exact details_trackState s c r

theorem details_reclaimClient (clientid : UInt64) :
    (s.reclaimClient cfg c clientid).1.details = s.details := by
  unfold reclaimClient
  dsimp only
  split
  · rfl
  · split
    · rfl
    · exact details_modClient_same _ rfl rfl rfl

theorem details_scanDue (now : Int) (due : List ClientRef) (timedOut : List UInt64) :
    (s.scanDue cfg now due timedOut).1.details = s.details := by
  unfold scanDue
  split
  · rfl
  · dsimp only
    split
    · rfl
    · split
      · split
        · rfl
        · exact details_armLeaseCheck s _ _
      · split
        · exact details_armLeaseCheck s _ _
        · rfl

theorem details_releaseVictims (fsid : UInt32) (until_ : Int) (victims : List StateRef) :
    (s.releaseVictims fsid until_ victims).1.details = s.details := by
  unfold releaseVictims
  split
  · rfl
  · split
    · rfl
    · exact details_modClient_same _ rfl rfl rfl

theorem details_of_plain (input : Input) {f : Frame} (hf : f.Plain) : (s.exec cfg input f).1.details = s.details := by
  cases f with
  | eraseSession id => exact details_eraseSession s id
  | destroySession id connId =>
    simp only [exec, destroySession]
    split
    · rfl
    · split
      · exact details_eraseSession s id
      · rfl
  | destroySessionClient c id => exact details_modClient_same s rfl rfl rfl
  | bindConn id connId => exact details_modSession s id _
  | bindBackchannel id chan => exact details_modSession s id _
  | runRecall => exact details_runRecall s
  | sendClaim id cb => exact details_sendClaim cfg s id cb
  | sendCall id slotSeq chan cb => exact details_sendCall s id slotSeq chan cb
  | sendReply id sent => exact details_modHeld s id _
  | reclaimClient c clientid => exact details_reclaimClient cfg s c clientid
  | sequenceAbort id slotid => exact details_modSlot s _ _ _
  | sequenceComplete id slotid seqid cache reply => exact details_modSlot s _ _ _
  | unlinkState r fromClient handover => exact details_unlinkState s r fromClient handover
  | unlinkFile r fromClient handover => exact details_dropFromFile s r
  | untrackState r handover => exact details_modClient_same s rfl rfl rfl
  | openGrace c args reclaimDone heldStates => exact details_noteGrace s
  | lockGrace c args reclaimDone heldStates => exact details_noteGrace s
  | openTrack c r => exact details_register cfg s c r _ _
  | lockTrack c l => exact details_register cfg s c l _ _
  | grantReadDeleg args =>
    simp only [exec, grantReadDeleg]
    split
    · rfl
    · exact details_noteGrace s
  | checkIo sid clientid file need =>
    simp only [exec, checkIo]
    split
    · dsimp only
      split
      · exact details_noteGrace s
      · rfl
    · rfl
  | grantClient c args =>
    simp only [exec, grantClient]
    split <;> rfl
  | grantTrack c r =>
    simp only [exec, grantTrack]
    split
    · rfl
    · exact details_trackState s c r
  | lockRefused ctx answer =>
    simp only [exec, lockRefused]
    split
    · split
      · exact details_noteGrace s
      · rfl
    · rfl
  | scanLeases => exact details_popDue s s.now s.leaseHeap
  | scanDue now due timedOut => exact details_scanDue cfg s now due timedOut
  | releaseVictims fsid until_ victims => exact details_releaseVictims s fsid until_ victims
  | armGrace fsid =>
    simp only [exec, loadGraceList, armGrace]
    split <;> rfl
  | tick _ | exchangeId _ | createClient _ _ | confirmClient _ _ _ | persistClient _ | destroyClient _ _
  | sequenceBegin _ | unlinkDeleg _ | persistFsClient _ _ | unpersistFsClient _ _ | openArbitrate _ _ _ | startRecall _
  | grantFile _ _ _ | grantCount _ _ _ _ | downgradeWrite _ _ _ _ | lockFile _ | lockuBump _ _ | scanClient _ _ _ _
  | expireSection _ _ _ | unpersistClient _ => exact hf.elim
  | _ => rfl

variable {cfg s}

/-! ### The sections that do touch them -/

theorem effect_registerClient {args : ExchangeArgs} {slot : OwnerSlot} {u : Shared}
    (hu : s.MakesRoom cfg args slot u.tables u.details) (hrefs : u.clientRefs = s.clientRefs) :
    Effect cfg s (.exchangeId args) (u.registerClient cfg args slot).1.tables
      (u.registerClient cfg args slot).1.details := by
  have hdrop : (u.dropUnconfirmed cfg slot).clientRefs = s.clientRefs := by
    rw [← hrefs, dropUnconfirmed]
    split <;> rfl
  unfold registerClient
  split
  · rw [tables_setSlot, tables_dropUnconfirmed, details_setSlot, details_dropUnconfirmed]
    exact .exchangeFull hu
  · rw [tables_addClient, tables_dropUnconfirmed, details_addClient, details_dropUnconfirmed, hdrop]
    exact .exchangeNew hu

theorem clientRefs_unpersistClient (cfg : Config) (s : Shared) (c : ClientRef) :
    (s.unpersistClient cfg c).clientRefs = s.clientRefs := by
  have htables := congrArg Tables.clientRefs (tables_unpersistClient cfg s c)
  rw [Tables.unpersist] at htables
  split at htables
  · exact htables
  · exact htables

theorem effect_exchangeId (args : ExchangeArgs) :
    Effect cfg s (.exchangeId args) (s.exchangeId cfg args).1.tables (s.exchangeId cfg args).1.details := by
  have hrenew : ∀ c, (s.slotOf args.ownerId).confirmed = some c → (s.clients c).verifier = args.verifier →
      (s.clients c).principal = args.principal →
      Effect cfg s (.exchangeId args) (s.renew cfg c).tables (s.renew cfg c).details := by
    intro c hc hverifier hprincipal
    rw [tables_renew, details_renew]
    exact .exchangeRenew (Option.filter_eq_some_iff.mpr ⟨hc, by simp [hverifier, hprincipal]⟩)
  unfold exchangeId
  dsimp only
  split
  · split
    · exact .exchangeRefused
    · exact effect_registerClient .same rfl
  · next c hc =>
    split
    · split
      · exact .exchangeRefused
      · next hverifier =>
        split
        · exact .exchangeRefused
        · next hprincipal => exact hrenew c hc (not_not.mp hverifier) (not_not.mp hprincipal)
    · split
      · split
        · exact .exchangeRefused
        · next hbusy =>
          push Not at hbusy
          refine effect_registerClient ?_ (clientRefs_unpersistClient cfg s c)
          rw [tables_unindex, tables_unpersistClient, details_unindex, details_unpersistClient]
          exact .evicted hc hbusy.1 hbusy.2
      · next hprincipal =>
        split
        · next hverifier => exact hrenew c hc hverifier (not_not.mp hprincipal)
        · exact effect_registerClient .same rfl

theorem effect_createClient (args : CreateArgs) (nonce : UInt32) :
    Effect cfg s (.createClient c args) (s.createClient cfg c args nonce).1.tables
      (s.createClient cfg c args nonce).1.details := by
  unfold createClient
  dsimp only
  split
  · exact .createRefused
  · next hinuse =>
    split
    · exact .createRefused
    · split
      · exact .createRefused
      · next hseq =>
        rw [not_not] at hseq
        split
        · next hconf =>
          rw [tables_addSession, details_addSession]
          exact .createAgain hconf ⟨hseq, Or.inl hconf⟩
        · next hconf =>
          have hprincipal : (s.clients c).principal = args.principal := by
            by_contra hne
            exact hinuse ⟨Bool.eq_false_iff.mpr hconf, hne⟩
          rw [tables_addSession, tables_confirmIncarnation, details_addSession, details_confirmIncarnation]
          exact .createFirst (Bool.eq_false_iff.mpr hconf) ⟨hseq, Or.inr hprincipal⟩

theorem effect_confirmClient (clientid : UInt64) (reply : Bytes) :
    Effect cfg s (.confirmClient c clientid reply) (s.confirmClient cfg c clientid reply).1.tables
      (s.confirmClient cfg c clientid reply).1.details := by
  unfold confirmClient
  split
  · next hgone => exact .confirmRefused hgone
  · have hpersist : (s.modClient c fun client => { client with csCachedReply := reply, persisted := true }).details =
        s.details.persist c := by
      rw [details_modClient]
      simp [details, Details.persist]
    rw [tables_modClient, hpersist]
    exact .confirmed

theorem effect_destroyClient (clientid : UInt64) :
    Effect cfg s (.destroyClient c clientid) (s.destroyClient cfg c clientid).1.tables
      (s.destroyClient cfg c clientid).1.details := by
  unfold destroyClient
  dsimp only
  split
  · exact .destroyRefused
  · next hreg =>
    rw [not_not] at hreg
    split
    · exact .destroyRefused
    · next hbusy =>
      push Not at hbusy
      rw [tables_unindex, tables_clearCourtesy, tables_clearSlot, tables_unpersistClient, details_unindex,
        details_clearCourtesy, details_clearSlot, details_unpersistClient]
      exact .destroyed hreg hbusy.1 hbusy.2

theorem effect_sequenceBegin (args : SequenceArgs) :
    Effect cfg s (.sequenceBegin args) (s.sequenceBegin cfg args).1.tables
      (s.sequenceBegin cfg args).1.details := by
  rw [tables_sequenceBegin]
  unfold sequenceBegin
  split
  · exact .sequenceSame
  · next session hid =>
    split
    · exact .sequenceSame
    · next hexp =>
      dsimp only
      split
      · exact .sequenceSame
      · next hslot =>
        split
        · exact .sequenceSame
        · next hhighest =>
          have hrenew : ∀ u : Shared, u.details = s.details →
              (session.slot args.slotid).classify args.seqid ∉ [SlotVerdict.wait, .misordered] →
              Effect cfg s (.sequenceBegin args) s.tables (u.renew cfg session.client).details := by
            intro u hu hverdict
            have hready : s.SlotReady args session :=
              ⟨Bool.eq_false_iff.mpr hexp, Nat.lt_of_not_le hslot, Nat.lt_of_not_le hhighest, hverdict⟩
            rw [details_renew, hu]
            exact .sequenceRenew (by simp [renews, hid, hready])
          split
          · exact .sequenceSame
          · exact .sequenceSame
          · next hverdict => exact hrenew _ rfl (by simp [hverdict])
          · next hverdict => exact hrenew _ rfl (by simp [hverdict])
          · next hverdict => exact hrenew _ rfl (by simp [hverdict])

theorem effect_scanClient (now : Int) (c : ClientRef) (due : List ClientRef) (timedOut : List UInt64) :
    Effect cfg s (.scanClient now c due timedOut) (s.scanClient cfg now c due timedOut).1.tables
      (s.scanClient cfg now c due timedOut).1.details := by
  unfold scanClient
  dsimp only
  split
  · exact .scanKept
  · next hgone =>
    push Not at hgone
    split
    · rw [tables_armLeaseCheck, details_armLeaseCheck]
      exact .scanKept
    · next hlease =>
      push Not at hlease
      split
      · rw [tables_removed, details_unindex, details_clearSlot, details_unpersistClient]
        exact .scanLapsed hgone.1 hlease.1
      · have hcourtesy : (s.modClient c fun client => { client with courtesy := true, courtesySince := now }).details =
            s.details.setCourtesy c true := by
          rw [details_modClient]
          simp [details, Details.setCourtesy]
        rw [tables_armLeaseCheck, tables_tally, tables_modClient_of_view s rfl, details_armLeaseCheck,
          details_tally _ rfl, hcourtesy]
        exact .scanCourtesy hgone.1 hlease.1

theorem effect_expireSection (clientid : UInt64) (reason : Reason) :
    Effect cfg s (.expireSection c clientid reason) (s.expireSection cfg c clientid).1.tables
      (s.expireSection cfg c clientid).1.details := by
  unfold expireSection
  dsimp only
  split
  · next hgone => exact .expireStale hgone
  · next hgone =>
    push Not at hgone
    rw [tables_unindex, tables_clearSlot, tables_retire, details_unindex, details_clearSlot, details_retire]
    exact .expire hgone.1 (Bool.eq_false_iff.mpr hgone.2)

theorem effect_openArbitrate (args : OpenArgs) (attempt : Nat) :
    Effect cfg s (.openArbitrate c args attempt) (s.openArbitrate cfg c args attempt).1.tables
      (s.openArbitrate cfg c args attempt).1.details := by
  unfold openArbitrate
  dsimp only
  split
  · exact .openRefused
  · next hcourtesy =>
    split
    · exact .openRefused
    · next hdenied =>
      split
      · exact .openRefused
      · next hdelegs =>
        have hrecalled : args.access &&& kShareWrite = 0 ∨ args.delegClaim = true ∨ s.liveDelegs args.file = [] := by
          by_contra hnone
          push Not at hnone
          exact hdelegs ⟨hnone.1, by simpa using hnone.2.1, hnone.2.2⟩
        split
        · next r hr =>
          rw [tables_openMerge, openMerge, details_bump _ rfl rfl rfl]
          have hmerges : s.merges c args = some r := (merges_eq hcourtesy hdenied hdelegs).trans hr
          exact .openMerge hrecalled hmerges
        · rw [tables_openCreate, details_openCreate]
          exact .openNew hrecalled

theorem effect_grantFile (other : StateOther) (args : GrantArgs) :
    Effect cfg s (.grantFile c other args) (s.grantFile c other args).1.tables (s.grantFile c other args).1.details := by
  unfold grantFile
  split
  · exact .grantBlocked
  · next hfree =>
    rw [tables_publish, details_publish _ rfl rfl rfl]
    exact .grantNew (Bool.eq_false_iff.mpr hfree)

theorem effect_startRecall :
    Effect cfg s (.startRecall r) (s.startRecall cfg r).tables (s.startRecall cfg r).details := by
  rw [tables_startRecall, details_startRecall]
  split
  · next hrecalled => exact .recallAgain hrecalled
  · exact .recallFirst

theorem effect_lockFile (ctx : LockCtx) :
    Effect cfg s (.lockFile ctx) (s.lockFile cfg ctx).1.tables (s.lockFile cfg ctx).1.details := by
  unfold lockFile
  split
  · next hnone =>
    rw [tables_lockCreate, details_lockCreate]
    exact .lockNew hnone
  · next l hl =>
    rw [tables_bumpSeqid, tables_touchFile, bumpSeqid, details_bump _ rfl rfl rfl]
    exact .lockReuse hl

theorem exec_effect (s : Shared) (cfg : Config) (input : Input) (f : Frame) :
    Effect cfg s f (s.exec cfg input f).1.tables (s.exec cfg input f).1.details := by
  have hplain : ∀ {f : Frame}, f.Plain → Effect cfg s f (s.exec cfg input f).1.tables (s.exec cfg input f).1.details :=
    fun hf => by
      rw [details_of_plain cfg s input hf]
      exact .plain hf
  cases f with
  | tick n => exact .tick
  | exchangeId args => exact effect_exchangeId args
  | createClient c args => exact effect_createClient c args _
  | confirmClient c clientid reply => exact effect_confirmClient c clientid reply
  | persistClient c =>
    simp only [exec, tables_persistClient, details_persistClient]
    exact .persist
  | destroyClient c clientid => exact effect_destroyClient c clientid
  | sequenceBegin args => exact effect_sequenceBegin args
  | scanClient now c due timedOut => exact effect_scanClient now c due timedOut
  | expireSection c clientid reason => exact effect_expireSection c clientid reason
  | unpersistClient c =>
    simp only [exec, tables_unpersistClient, details_unpersistClient]
    exact .unpersist
  | unlinkDeleg r =>
    simp only [exec, tables_unlinkDeleg, details_unlinkDeleg]
    exact .uncount
  | grantCount c r dead firstInFs =>
    simp only [exec, tables_grantCount, details_grantCount]
    exact .count
  | persistFsClient fsid ownerId => exact .put
  | unpersistFsClient fsid ownerId => exact .erase
  | openArbitrate c args attempt => exact effect_openArbitrate c args attempt
  | startRecall r => exact effect_startRecall r
  | grantFile c other args => exact effect_grantFile c other args
  | downgradeWrite r other access deny =>
    simp only [exec, tables_downgradeWrite]
    rw [downgradeWrite, details_bump _ rfl rfl rfl]
    exact .downgrade
  | lockFile ctx => exact effect_lockFile ctx
  | lockuBump r other =>
    simp only [exec, tables_bumpSeqid]
    rw [bumpSeqid, details_bump _ rfl rfl rfl]
    exact .unlock
  | _ => exact hplain trivial

end Shared

/-! ### Recalls -/

theorem Effect.recalled {cfg : Config} {s : Shared} {f : Frame} {t : Tables} {d : Details} (h : Effect cfg s f t d) :
    ∀ g < s.stateRefs, s.details.recalled g = true → d.recalled g = true := by
  intro g hg hrec
  have hnew : (s.details.addState s.stateRefs).recalled g = true := by
    rw [← hrec]
    exact update_of_ne (Nat.ne_of_lt hg) _ _
  cases h with
  | exchangeFull hu => cases hu <;> simpa using hrec
  | exchangeNew hu => cases hu <;> simpa [Details.addClient, Details.renew, Details.setCourtesy] using hrec
  | @createFirst c =>
    cases hold : s.oldIncarnation c <;> simpa [Details.renew, Details.retireOld, Details.setCourtesy] using hrec
  | persist => split <;> exact hrec
  | destroyed => simpa [Details.setCourtesy] using hrec
  | scanLapsed => simpa using hrec
  | unpersist => simpa using hrec
  | @recallFirst r =>
    simp only [Details.startRecall, update_apply]
    split
    · rfl
    · exact hrec
  | openNew => exact hnew
  | grantNew => exact hnew
  | lockNew => exact hnew
  | _ => exact hrec

theorem Effect.recalled_back {cfg : Config} {s : Shared} {f : Frame} {t : Tables} {d : Details} (h : Effect cfg s f t d)
    {g : StateRef} (hrec : d.recalled g = true) : s.details.recalled g = true ∨ f = .startRecall g := by
  have hnew : (s.details.addState s.stateRefs).recalled g = true → s.details.recalled g = true := by
    intro h
    simp only [Details.addState, update_apply] at h
    split at h
    · exact absurd h Bool.false_ne_true
    · exact h
  cases h with
  | exchangeFull hu => cases hu <;> exact Or.inl (by simpa using hrec)
  | exchangeNew hu =>
    cases hu <;> exact Or.inl (by simpa [Details.addClient, Details.renew, Details.setCourtesy] using hrec)
  | @createFirst c =>
    left
    cases hold : s.oldIncarnation c <;>
      simpa [hold, Details.renew, Details.retireOld, Details.setCourtesy] using hrec
  | persist =>
    split at hrec <;> exact Or.inl hrec
  | destroyed => exact Or.inl (by simpa [Details.setCourtesy] using hrec)
  | scanLapsed => exact Or.inl (by simpa using hrec)
  | unpersist => exact Or.inl (by simpa using hrec)
  | @recallFirst r =>
    simp only [Details.startRecall, update_apply] at hrec
    split at hrec
    · next heq =>
      rw [heq]
      exact Or.inr rfl
    · exact Or.inl hrec
  | openNew => exact Or.inl (hnew hrec)
  | grantNew => exact Or.inl (hnew hrec)
  | lockNew => exact Or.inl (hnew hrec)
  | _ => exact Or.inl hrec

end LightNfs
