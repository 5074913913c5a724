import LightNfs.State.Flow

/-!
# References stay valid

A reference held by a table, a record or a pending frame names an allocated record, and what a record says
about itself when it is created it says for ever: its ids, its owner, its file, its type and its parent.
`Extends` is that monotonicity and `Tables.Wf` the validity of the tables.
-/

namespace LightNfs

open Function

namespace Tables

/-- An allocated client record with this id. -/
def Client (t : Tables) (c : ClientRef) (clientid : UInt64) : Prop :=
  c < t.clientRefs ∧ (t.clients c).clientid = clientid

/-- An allocated state record of this client and type. -/
def State (t : Tables) (r : StateRef) (c : ClientRef) (type : StateType) : Prop :=
  r < t.stateRefs ∧ (t.states r).client = c ∧ (t.states r).type = type

def Closed (t : Tables) (r : StateRef) : Prop := r < t.stateRefs ∧ (t.states r).closed = true

/-! ### What no step takes back -/

structure Extends (t t' : Tables) : Prop where
  clientRefs : t.clientRefs ≤ t'.clientRefs
  stateRefs : t.stateRefs ≤ t'.stateRefs
  clientid : ∀ c < t.clientRefs, (t'.clients c).clientid = (t.clients c).clientid
  ownerId : ∀ c < t.clientRefs, (t'.clients c).ownerId = (t.clients c).ownerId
  confirmed : ∀ c < t.clientRefs, (t.clients c).confirmed = true → (t'.clients c).confirmed = true
  expired : ∀ c < t.clientRefs, (t.clients c).expired = true → (t'.clients c).expired = true
  record : ∀ r < t.stateRefs, ∃ access deny closed,
    t'.states r = { t.states r with access := access, deny := deny, closed := closed } ∧
      ((t.states r).closed = true → closed = true)

namespace Extends

variable {t t' t'' : Tables}
variable {r : StateRef}

theorem refl (t : Tables) : t.Extends t where
  clientRefs := Nat.le_refl _
  stateRefs := Nat.le_refl _
  clientid _ _ := rfl
  ownerId _ _ := rfl
  confirmed _ _ h := h
  expired _ _ h := h
  record _ _ := ⟨_, _, _, rfl, id⟩

theorem trans (h : t.Extends t') (h' : t'.Extends t'') : t.Extends t'' where
  clientRefs := h.clientRefs.trans h'.clientRefs
  stateRefs := h.stateRefs.trans h'.stateRefs
  clientid c hc := (h'.clientid c (hc.trans_le h.clientRefs)).trans (h.clientid c hc)
  ownerId c hc := (h'.ownerId c (hc.trans_le h.clientRefs)).trans (h.ownerId c hc)
  confirmed c hc hconf := h'.confirmed c (hc.trans_le h.clientRefs) (h.confirmed c hc hconf)
  expired c hc hexp := h'.expired c (hc.trans_le h.clientRefs) (h.expired c hc hexp)
  record r hr := by
    obtain ⟨a, d, e, heq, hclosed⟩ := h.record r hr
    obtain ⟨a', d', e', heq', hclosed'⟩ := h'.record r (hr.trans_le h.stateRefs)
    refine ⟨a', d', e', by rw [heq', heq], fun hc => hclosed' ?_⟩
    rw [heq]
    exact hclosed hc

theorem other (h : t.Extends t') (hr : r < t.stateRefs) : (t'.states r).other = (t.states r).other := by
  obtain ⟨a, d, e, heq, -⟩ := h.record r hr
  rw [heq]

theorem type (h : t.Extends t') (hr : r < t.stateRefs) : (t'.states r).type = (t.states r).type := by
  obtain ⟨a, d, e, heq, -⟩ := h.record r hr
  rw [heq]

theorem client (h : t.Extends t') (hr : r < t.stateRefs) :
    (t'.states r).client = (t.states r).client := by
  obtain ⟨a, d, e, heq, -⟩ := h.record r hr
  rw [heq]

theorem key (h : t.Extends t') (hr : r < t.stateRefs) : (t'.states r).key = (t.states r).key := by
  obtain ⟨a, d, e, heq, -⟩ := h.record r hr
  rw [heq]

theorem owner (h : t.Extends t') (hr : r < t.stateRefs) : (t'.states r).owner = (t.states r).owner := by
  obtain ⟨a, d, e, heq, -⟩ := h.record r hr
  rw [heq]

theorem lowner (h : t.Extends t') (hr : r < t.stateRefs) :
    (t'.states r).lowner = (t.states r).lowner := by
  obtain ⟨a, d, e, heq, -⟩ := h.record r hr
  rw [heq]

theorem parentOpen (h : t.Extends t') (hr : r < t.stateRefs) :
    (t'.states r).parentOpen = (t.states r).parentOpen := by
  obtain ⟨a, d, e, heq, -⟩ := h.record r hr
  rw [heq]

theorem closed (h : t.Extends t') (hr : r < t.stateRefs) (hc : (t.states r).closed = true) :
    (t'.states r).closed = true := by
  obtain ⟨a, d, e, heq, hclosed⟩ := h.record r hr
  rw [heq]
  exact hclosed hc

theorem setClient {c : ClientRef} {v : ClientView} (hid : v.clientid = (t.clients c).clientid)
    (howner : v.ownerId = (t.clients c).ownerId) (hconf : (t.clients c).confirmed = true → v.confirmed = true)
    (hexp : (t.clients c).expired = true → v.expired = true) : t.Extends (t.setClient c v) where
  clientRefs := Nat.le_refl _
  stateRefs := Nat.le_refl _
  clientid c' _ := by
    simp only [Tables.setClient, update_apply]
    split <;> simp_all
  ownerId c' _ := by
    simp only [Tables.setClient, update_apply]
    split <;> simp_all
  confirmed c' _ h := by
    simp only [Tables.setClient, update_apply]
    split <;> simp_all
  expired c' _ h := by
    simp only [Tables.setClient, update_apply]
    split <;> simp_all
  record _ _ := ⟨_, _, _, rfl, id⟩

theorem setState {access deny : ShareBits} {closed : Bool}
    (hclosed : (t.states r).closed = true → closed = true) :
    t.Extends (t.setState r { t.states r with access := access, deny := deny, closed := closed }) where
  clientRefs := Nat.le_refl _
  stateRefs := Nat.le_refl _
  clientid _ _ := rfl
  ownerId _ _ := rfl
  confirmed _ _ h := h
  expired _ _ h := h
  record r' _ := by
    simp only [Tables.setState, update_apply]
    split
    · rename_i h
      subst h
      exact ⟨_, _, _, rfl, hclosed⟩
    · exact ⟨_, _, _, rfl, id⟩

theorem addClient (cfg : Config) (args : ExchangeArgs) (slot : OwnerSlot) : t.Extends (t.addClient cfg args slot) := by
  have hold : ∀ c < t.clientRefs, (t.addClient cfg args slot).clients c = t.clients c := by
    intro c hc
    simp only [Tables.addClient, update_apply]
    rw [if_neg (Nat.ne_of_lt hc)]
  exact
    { clientRefs := Nat.le_succ _
      stateRefs := Nat.le_refl _
      clientid := fun c hc => by rw [hold c hc]
      ownerId := fun c hc => by rw [hold c hc]
      confirmed := fun c hc h => by rw [hold c hc]; exact h
      expired := fun c hc h => by rw [hold c hc]; exact h
      record := fun _ _ => ⟨_, _, _, rfl, id⟩ }

theorem publish (v : StateView) : t.Extends (t.publish v) where
  clientRefs := Nat.le_refl _
  stateRefs := Nat.le_succ _
  clientid _ _ := rfl
  ownerId _ _ := rfl
  confirmed _ _ h := h
  expired _ _ h := h
  record r hr := by
    simp only [Tables.publish, update_apply]
    rw [if_neg (Nat.ne_of_lt hr)]
    exact ⟨_, _, _, rfl, id⟩

theorem of_heaps (hclients : t'.clients = t.clients) (hstates : t'.states = t.states)
    (hc : t'.clientRefs = t.clientRefs) (hs : t'.stateRefs = t.stateRefs) : t.Extends t' where
  clientRefs := Nat.le_of_eq hc.symm
  stateRefs := Nat.le_of_eq hs.symm
  clientid _ _ := by rw [hclients]
  ownerId _ _ := by rw [hclients]
  confirmed _ _ h := by rw [hclients]; exact h
  expired _ _ h := by rw [hclients]; exact h
  record _ _ := ⟨_, _, _, by rw [hstates], id⟩

theorem unpersist (cfg : Config) (c : ClientRef) : t.Extends (t.unpersist cfg c) := by
  unfold Tables.unpersist
  split
  · exact setClient rfl rfl id id
  · exact refl t

theorem retire (c : ClientRef) : t.Extends (t.retire c) := setClient rfl rfl id fun _ => rfl

theorem dropUnconfirmed (cfg : Config) (slot : OwnerSlot) : t.Extends (t.dropUnconfirmed cfg slot) := by
  unfold Tables.dropUnconfirmed
  split
  · exact of_heaps rfl rfl rfl rfl
  · exact refl t

theorem retireOld (cfg : Config) (c : ClientRef) : t.Extends (t.retireOld cfg c) := by
  unfold Tables.retireOld
  split
  · exact (retire _).trans (of_heaps rfl rfl rfl rfl)
  · exact refl t

theorem confirmIncarnation (cfg : Config) (c : ClientRef) : t.Extends (t.confirmIncarnation cfg c) := by
  simp only [Tables.confirmIncarnation]
  refine (retireOld cfg c).trans (.trans ?_ (setClient ?_ ?_ ?_ ?_))
  · exact of_heaps rfl rfl rfl rfl
  · rfl
  · rfl
  · exact fun _ => rfl
  · exact id

theorem addSession (c : ClientRef) (args : CreateArgs) (sid : SessionId) : t.Extends (t.addSession c args sid) := by
  refine .trans ?_ (setClient ?_ ?_ ?_ ?_)
  · exact of_heaps rfl rfl rfl rfl
  · rfl
  · rfl
  · exact id
  · exact id

theorem track (c : ClientRef) (r : StateRef) : t.Extends (t.track c r) := setClient rfl rfl id id

theorem untrack (r : StateRef) : t.Extends (t.untrack r) := setClient rfl rfl id id

theorem close (r : StateRef) : t.Extends (t.close r) := by
  have htable : t.Extends { t with table := update t.table (t.states r).other none } :=
    of_heaps rfl rfl rfl rfl
  exact htable.trans (setState (r := r) fun _ => rfl)

theorem dropFromFile (r : StateRef) : t.Extends (t.dropFromFile r) := by
  simp only [Tables.dropFromFile]
  split
  · exact refl t
  · exact of_heaps rfl rfl rfl rfl

theorem setShare (r : StateRef) (access deny : ShareBits) : t.Extends (t.setShare r access deny) := setState id

theorem remove (cfg : Config) (c : ClientRef) : t.Extends (t.remove cfg c) :=
  (unpersist cfg c).trans (of_heaps rfl rfl rfl rfl)

theorem vacated {cfg : Config} {o : Bytes} {slot : OwnerSlot} {u : Tables} (h : t.Vacated cfg o slot u) :
    t.Extends u := by
  cases h with
  | same => exact refl t
  | evicted => exact (unpersist cfg _).trans (of_heaps rfl rfl rfl rfl)

theorem of_change {cfg : Config} {f : Frame} (h : Change cfg t f t') : t.Extends t' := by
  have hmint : t.Extends t.mint := of_heaps rfl rfl rfl rfl
  cases h with
  | exchangeFull hu => exact ((vacated hu).trans (dropUnconfirmed cfg _)).trans (of_heaps rfl rfl rfl rfl)
  | exchangeNew hu => exact ((vacated hu).trans (dropUnconfirmed cfg _)).trans (addClient cfg _ _)
  | createAgain => exact addSession _ _ _
  | createFirst => exact (confirmIncarnation cfg _).trans (addSession _ _ _)
  | cacheReply | dropSession => exact setClient rfl rfl (fun h => h) fun h => h
  | destroyClient | scanLapsed => exact remove cfg _
  | expire => exact (retire _).trans (of_heaps rfl rfl rfl rfl)
  | unpersist => exact unpersist cfg _
  | close => exact close _
  | dropFromFile => exact dropFromFile _
  | untrack => exact untrack _
  | openMerge | downgrade => exact setShare _ _ _
  | openNew | lockNew => exact hmint.trans (publish _)
  | track => exact track _ _
  | grantNew => exact publish _
  | insertSession | eraseSession | destroySession | forgetLockOwners | releaseLocks | insert | grantMint | recallFirst
  | sweep | lockArbitrate | lockRestore | lockRelock | unlock | lockRemember | lockReuse =>
    exact of_heaps rfl rfl rfl rfl
  | quiet | exchangeRefused | createRefused | confirmRefused | destroyNoSession | destroyRefused | scanKept
  | expireStale | unlinkAgain | openRefused | trackRefused | grantRefused | grantBlocked | recallAgain => exact refl t

end Extends

/-! ### Valid tables -/

/-- A lock record carries the id of its owner and hangs on an open of the same client and file. -/
def Record (t : Tables) (r : StateRef) : Prop :=
  (t.states r).client < t.clientRefs ∧
    ((t.states r).type = .kLock →
      (t.states r).lowner = makeLowner (t.clients (t.states r).client).clientid (t.states r).owner ∧
        ∃ p, (t.states r).parentOpen = some p ∧ t.State p (t.states r).client .kOpen ∧
          (t.states p).key = (t.states r).key)

structure Wf (cfg : Config) (t : Tables) : Prop where
  idx : ∀ id c, t.clientIdx id = some c → t.Client c id
  ids : ∀ k c, t.byId k = some c → c < t.clientRefs ∧ t.idKey cfg c = k
  confirmed : ∀ o c, (t.byOwner o).confirmed = some c →
    c < t.clientRefs ∧ (t.clients c).ownerId = o ∧ (t.clients c).confirmed = true
  unconfirmed : ∀ o c, (t.byOwner o).unconfirmed = some c → c < t.clientRefs ∧ (t.clients c).ownerId = o
  sessions : ∀ id c, t.sessions id = some c → t.Client c id.clientid
  lockOwners : ∀ id c, t.lockOwners id = some c → c < t.clientRefs
  records : ∀ r < t.stateRefs, t.Record r
  table : ∀ o r, t.table o = some r → r < t.stateRefs ∧ (t.states r).other = o
  files : ∀ k type r, r ∈ (t.fileAt k).list type →
    r < t.stateRefs ∧ (t.states r).type = type ∧ (t.states r).key = k
  watch : ∀ r ∈ t.recallWatch, r < t.stateRefs ∧ (t.states r).type = .kDeleg

/-- Every index entry of `t'` is one of `t`, and no record is new. -/
structure Shrinks (t t' : Tables) : Prop where
  stateRefs : t'.stateRefs = t.stateRefs
  idx : ∀ id c, t'.clientIdx id = some c → t.clientIdx id = some c
  ids : ∀ k c, t'.byId k = some c → t.byId k = some c
  confirmed : ∀ o c, (t'.byOwner o).confirmed = some c → (t.byOwner o).confirmed = some c
  unconfirmed : ∀ o c, (t'.byOwner o).unconfirmed = some c → (t.byOwner o).unconfirmed = some c
  sessions : ∀ id c, t'.sessions id = some c → t.sessions id = some c
  lockOwners : ∀ id c, t'.lockOwners id = some c → t.lockOwners id = some c
  table : ∀ o r, t'.table o = some r → t.table o = some r
  files : ∀ k type r, r ∈ (t'.fileAt k).list type → r ∈ (t.fileAt k).list type
  watch : ∀ r ∈ t'.recallWatch, r ∈ t.recallWatch

namespace Shrinks

variable {t t' t'' : Tables}

theorem trans (h : t.Shrinks t') (h' : t'.Shrinks t'') : t.Shrinks t'' where
  stateRefs := h'.stateRefs.trans h.stateRefs
  idx id c hc := h.idx id c (h'.idx id c hc)
  ids k c hc := h.ids k c (h'.ids k c hc)
  confirmed o c hc := h.confirmed o c (h'.confirmed o c hc)
  unconfirmed o c hc := h.unconfirmed o c (h'.unconfirmed o c hc)
  sessions id c hc := h.sessions id c (h'.sessions id c hc)
  lockOwners id c hc := h.lockOwners id c (h'.lockOwners id c hc)
  table o r hr := h.table o r (h'.table o r hr)
  files k type r hr := h.files k type r (h'.files k type r hr)
  watch r hr := h.watch r (h'.watch r hr)

theorem of_same (hrefs : t'.stateRefs = t.stateRefs) (hidx : t'.clientIdx = t.clientIdx) (hids : t'.byId = t.byId)
    (hslot : t'.byOwner = t.byOwner) (hsess : t'.sessions = t.sessions) (hown : t'.lockOwners = t.lockOwners)
    (htable : t'.table = t.table) (hfiles : t'.files = t.files) (hwatch : t'.recallWatch = t.recallWatch) :
    t.Shrinks t' where
  stateRefs := hrefs
  idx _ _ h := by rwa [hidx] at h
  ids _ _ h := by rwa [hids] at h
  confirmed _ _ h := by rwa [hslot] at h
  unconfirmed _ _ h := by rwa [hslot] at h
  sessions _ _ h := by rwa [hsess] at h
  lockOwners _ _ h := by rwa [hown] at h
  table _ _ h := by rwa [htable] at h
  files _ _ _ h := by rwa [fileAt, hfiles] at h
  watch _ h := by rwa [hwatch] at h

theorem refl (t : Tables) : t.Shrinks t := of_same rfl rfl rfl rfl rfl rfl rfl rfl rfl

theorem setClient (c : ClientRef) (v : ClientView) : t.Shrinks (t.setClient c v) :=
  of_same rfl rfl rfl rfl rfl rfl rfl rfl rfl

theorem unindex (cfg : Config) (c : ClientRef) : t.Shrinks (t.unindex cfg c) :=
  { refl t with
    idx := fun id c' h => by
      simp only [Tables.unindex, update_apply] at h
      split at h
      · exact absurd h (by simp)
      · exact h
    ids := fun k c' h => by
      simp only [Tables.unindex, update_apply] at h
      split at h
      · exact absurd h (by simp)
      · exact h }

theorem dropUnconfirmed (cfg : Config) (slot : OwnerSlot) : t.Shrinks (t.dropUnconfirmed cfg slot) := by
  unfold Tables.dropUnconfirmed
  split
  · exact unindex cfg _
  · exact refl t

theorem retireOld (cfg : Config) (c : ClientRef) : t.Shrinks (t.retireOld cfg c) := by
  unfold Tables.retireOld
  split
  · exact (setClient _ _).trans (unindex cfg _)
  · exact refl t

theorem setSlot {o : Bytes} {slot : OwnerSlot} (hconf : ∀ c, slot.confirmed = some c → (t.byOwner o).confirmed = some c)
    (hunconf : ∀ c, slot.unconfirmed = some c → (t.byOwner o).unconfirmed = some c) : t.Shrinks (t.setSlot o slot) :=
  { refl t with
    confirmed := fun o' c h => by
      simp only [Tables.setSlot, update_apply] at h
      split at h
      · rename_i heq
        rw [heq]
        exact hconf c h
      · exact h
    unconfirmed := fun o' c h => by
      simp only [Tables.setSlot, update_apply] at h
      split at h
      · rename_i heq
        rw [heq]
        exact hunconf c h
      · exact h }

theorem clearSlot (c : ClientRef) : t.Shrinks (t.clearSlot c) := by
  apply setSlot
  · intro c' h
    simp only [OwnerSlot.without] at h
    split at h
    · exact absurd h (by simp)
    · exact h
  · intro c' h
    simp only [OwnerSlot.without] at h
    split at h
    · exact absurd h (by simp)
    · exact h

theorem unpersist (cfg : Config) (c : ClientRef) : t.Shrinks (t.unpersist cfg c) := by
  unfold Tables.unpersist
  split
  · exact setClient _ _
  · exact refl t

theorem remove (cfg : Config) (c : ClientRef) : t.Shrinks (t.remove cfg c) :=
  ((unpersist cfg c).trans (clearSlot c)).trans (unindex cfg c)

theorem eraseSession (id : SessionId) : t.Shrinks (t.setSession id none) :=
  { refl t with
    sessions := fun id' c h => by
      simp only [setSession, update_apply] at h
      split at h
      · exact absurd h (by simp)
      · exact h }

theorem forgetLockOwners (clientid : UInt64) : t.Shrinks (t.forgetLockOwners clientid) :=
  { refl t with
    lockOwners := fun id c h => by
      simp only [Tables.forgetLockOwners] at h
      exact (Option.filter_eq_some_iff.mp h).1 }

theorem close (r : StateRef) : t.Shrinks (t.close r) :=
  { refl t with
    table := fun o r' h => by
      simp only [Tables.close, Tables.setState, update_apply] at h
      split at h
      · exact absurd h (by simp)
      · exact h }

theorem dropFromFile (r : StateRef) : t.Shrinks (t.dropFromFile r) := by
  simp only [Tables.dropFromFile]
  cases hfile : t.files (t.states r).key with
  | none => exact refl t
  | some file =>
    have hat : t.fileAt (t.states r).key = file := by simp [fileAt, hfile]
    refine { refl t with files := fun k type r' h => ?_ }
    by_cases hk : k = (t.states r).key
    · subst hk
      rw [hat]
      simp only [fileAt, setFile, update_self] at h
      split at h
      · simp at h
      · simp only [Option.getD_some, FileStateRec.list_drop] at h
        split at h
        · exact (List.mem_filter.mp h).1
        · exact h
    · simpa [fileAt, setFile, hk] using h

theorem touchFile (key : FileKey) : t.Shrinks (t.touchFile key) :=
  { refl t with
    files := fun k type r h => by
      by_cases hk : k = key
      · subst hk
        simpa [Tables.touchFile, fileAt, setFile] using h
      · simpa [Tables.touchFile, fileAt, setFile, hk] using h }

end Shrinks

section Stability

variable {cfg : Config} {t t' t'' : Tables}
variable {c : ClientRef} {r : StateRef}

theorem Client.extends {clientid : UInt64} (h : t.Client c clientid) (he : t.Extends t') :
    t'.Client c clientid := ⟨h.1.trans_le he.clientRefs, (he.clientid c h.1).trans h.2⟩

theorem State.extends {type : StateType} (h : t.State r c type) (he : t.Extends t') :
    t'.State r c type :=
  ⟨h.1.trans_le he.stateRefs, (he.client h.1).trans h.2.1, (he.type h.1).trans h.2.2⟩

theorem Closed.extends (h : t.Closed r) (he : t.Extends t') : t'.Closed r :=
  ⟨h.1.trans_le he.stateRefs, he.closed h.1 h.2⟩

theorem Record.extends (hr : r < t.stateRefs) (h : t.Record r) (he : t.Extends t') : t'.Record r := by
  obtain ⟨hclient, hlock⟩ := h
  refine ⟨by rw [he.client hr]; exact hclient.trans_le he.clientRefs, fun htype => ?_⟩
  rw [he.type hr] at htype
  obtain ⟨hlowner, p, hparent, hp, hkey⟩ := hlock htype
  rw [he.lowner hr, he.client hr, he.owner hr, he.clientid _ hclient, he.parentOpen hr, he.key hr]
  exact ⟨hlowner, p, hparent, hp.extends he, (he.key hp.1).trans hkey⟩

theorem idKey_extends (hc : c < t.clientRefs) (he : t.Extends t') :
    t'.idKey cfg c = t.idKey cfg c := by
  rw [idKey, idKey, he.clientid c hc, he.ownerId c hc]

theorem Wf.shrink (h : t.Wf cfg) (he : t.Extends t') (hs : t.Shrinks t') : t'.Wf cfg where
  idx id c hc := (h.idx id c (hs.idx id c hc)).extends he
  ids k c hc := by
    obtain ⟨hlt, hkey⟩ := h.ids k c (hs.ids k c hc)
    exact ⟨hlt.trans_le he.clientRefs, (idKey_extends hlt he).trans hkey⟩
  confirmed o c hc := by
    obtain ⟨hlt, hown, hconf⟩ := h.confirmed o c (hs.confirmed o c hc)
    exact ⟨hlt.trans_le he.clientRefs, (he.ownerId c hlt).trans hown, he.confirmed c hlt hconf⟩
  unconfirmed o c hc := by
    obtain ⟨hlt, hown⟩ := h.unconfirmed o c (hs.unconfirmed o c hc)
    exact ⟨hlt.trans_le he.clientRefs, (he.ownerId c hlt).trans hown⟩
  sessions id c hc := (h.sessions id c (hs.sessions id c hc)).extends he
  lockOwners id c hc := (h.lockOwners id c (hs.lockOwners id c hc)).trans_le he.clientRefs
  records r hr := by
    rw [hs.stateRefs] at hr
    exact Record.extends hr (h.records r hr) he
  table o r hr := by
    obtain ⟨hlt, hother⟩ := h.table o r (hs.table o r hr)
    exact ⟨hlt.trans_le he.stateRefs, (he.other hlt).trans hother⟩
  files k type r hr := by
    obtain ⟨hlt, htype, hkey⟩ := h.files k type r (hs.files k type r hr)
    exact ⟨hlt.trans_le he.stateRefs, (he.type hlt).trans htype, (he.key hlt).trans hkey⟩
  watch r hr :=
    have hold := h.watch r (hs.watch r hr)
    ⟨hold.1.trans_le he.stateRefs, (he.type hold.1).trans hold.2⟩

/-! ### Operations that add an entry -/

theorem Wf.addClient (h : t.Wf cfg) (args : ExchangeArgs) (slot : OwnerSlot)
    (hslot : ∀ c, slot.confirmed = some c →
      c < t.clientRefs ∧ (t.clients c).ownerId = args.ownerId ∧ (t.clients c).confirmed = true) :
    (t.addClient cfg args slot).Wf cfg := by
  have he := Extends.addClient (t := t) cfg args slot
  have hs : t.Shrinks { t.addClient cfg args slot with
      clientIdx := t.clientIdx, byId := t.byId, byOwner := t.byOwner } := Shrinks.of_same rfl rfl rfl rfl rfl rfl rfl rfl rfl
  have hbase : Wf cfg { t.addClient cfg args slot with
      clientIdx := t.clientIdx, byId := t.byId, byOwner := t.byOwner } :=
    h.shrink (he.trans (Extends.of_heaps rfl rfl rfl rfl)) hs
  have hnew : (t.addClient cfg args slot).clients t.clientRefs =
      { clientid := Shared.clientidOf cfg t.nextClient, ownerId := args.ownerId, principal := args.principal,
        confirmed := false, csSequence := 1, csCachedReply := [], sessions := [], expired := false, states := [],
        held := fun _ => 0 } := by simp [Tables.addClient]
  have hlt : t.clientRefs < (t.addClient cfg args slot).clientRefs := Nat.lt_succ_self _
  refine { hbase with idx := fun id c hc => ?_, ids := fun k c hc => ?_, confirmed := fun o c hc => ?_,
                      unconfirmed := fun o c hc => ?_ }
  · simp only [Tables.addClient, update_apply] at hc
    split at hc
    · rename_i hid
      obtain rfl := Option.some.inj hc
      exact ⟨hlt, by rw [hnew, hid]⟩
    · exact hbase.idx id c hc
  · simp only [Tables.addClient, update_apply] at hc
    split at hc
    · rename_i hk
      obtain rfl := Option.some.inj hc
      exact ⟨hlt, by rw [idKey, hnew, hk]⟩
    · exact hbase.ids k c hc
  · simp only [Tables.addClient, update_apply] at hc
    split at hc
    · rename_i ho
      obtain ⟨hc1, hc2, hc3⟩ := hslot c hc
      exact ⟨hc1.trans_le he.clientRefs, by rw [he.ownerId c hc1, hc2, ho], he.confirmed c hc1 hc3⟩
    · exact hbase.confirmed o c hc
  · simp only [Tables.addClient, update_apply] at hc
    split at hc
    · rename_i ho
      obtain rfl := Option.some.inj hc
      exact ⟨hlt, by rw [hnew, ho]⟩
    · exact hbase.unconfirmed o c hc

theorem Wf.confirmIncarnation (h : t.Wf cfg) (hc : c < t.clientRefs) :
    (t.confirmIncarnation cfg c).Wf cfg := by
  have he := Extends.confirmIncarnation (t := t) cfg c
  have hs : t.Shrinks { t.confirmIncarnation cfg c with byOwner := t.byOwner } := by
    have hold := Shrinks.retireOld (t := t) cfg c
    exact { hold with confirmed := fun _ _ h => h, unconfirmed := fun _ _ h => h }
  have hbase : Wf cfg { t.confirmIncarnation cfg c with byOwner := t.byOwner } :=
    h.shrink (he.trans (Extends.of_heaps rfl rfl rfl rfl)) hs
  have hsame : ∀ o, o ≠ (t.clients c).ownerId → (t.confirmIncarnation cfg c).byOwner o = t.byOwner o := by
    intro o ho
    have hkeep : (t.retireOld cfg c).byOwner = t.byOwner := by
      unfold Tables.retireOld
      split <;> rfl
    simp [Tables.confirmIncarnation, Tables.setClient, setSlot, update_of_ne ho, hkeep]
  have hat : (t.confirmIncarnation cfg c).byOwner (t.clients c).ownerId =
      { confirmed := some c
        unconfirmed := if (t.byOwner (t.clients c).ownerId).unconfirmed = some c then none
          else (t.byOwner (t.clients c).ownerId).unconfirmed } := by
    simp [Tables.confirmIncarnation, Tables.setClient, setSlot]
  refine { hbase with confirmed := fun o c' hc' => ?_, unconfirmed := fun o c' hc' => ?_ }
  · by_cases ho : o = (t.clients c).ownerId
    · subst ho
      rw [hat] at hc'
      obtain rfl := Option.some.inj hc'
      exact ⟨hc.trans_le he.clientRefs, he.ownerId c hc, by simp [Tables.confirmIncarnation, Tables.setClient]⟩
    · rw [hsame o ho] at hc'
      exact hbase.confirmed o c' hc'
  · by_cases ho : o = (t.clients c).ownerId
    · subst ho
      rw [hat] at hc'
      simp only at hc'
      split at hc'
      · exact absurd hc' (by simp)
      · exact hbase.unconfirmed _ c' hc'
    · rw [hsame o ho] at hc'
      exact hbase.unconfirmed o c' hc'

theorem Wf.setSession (h : t.Wf cfg) {id : SessionId} (hc : t.Client c id.clientid) :
    (t.setSession id (some c)).Wf cfg := by
  refine { h with sessions := fun id' c' h' => ?_ }
  simp only [Tables.setSession, update_apply] at h'
  split at h'
  · rename_i heq
    obtain rfl := Option.some.inj h'
    rw [heq]
    exact hc
  · exact h.sessions id' c' h'

theorem Wf.rememberOwner (h : t.Wf cfg) (lowner : LockOwnerId) (hc : c < t.clientRefs) :
    (t.rememberOwner lowner c).Wf cfg := by
  refine { h with lockOwners := fun id c' h' => ?_ }
  simp only [Tables.rememberOwner, update_apply] at h'
  split at h'
  · obtain rfl := Option.some.inj h'
    exact hc
  · exact h.lockOwners id c' h'

theorem Wf.insertState (h : t.Wf cfg) (hr : r < t.stateRefs) : (t.insertState r).Wf cfg := by
  refine { h with table := fun o r' h' => ?_ }
  simp only [Tables.insertState, update_apply] at h'
  split at h'
  · rename_i heq
    obtain rfl := Option.some.inj h'
    exact ⟨hr, heq.symm⟩
  · exact h.table o r' h'

theorem Wf.setWatch (h : t.Wf cfg) {watch : List StateRef}
    (hwatch : ∀ r ∈ watch, r < t.stateRefs ∧ (t.states r).type = .kDeleg) :
    (t.setWatch watch).Wf cfg := { h with watch := hwatch }

theorem fileAt_publish (t : Tables) (v : StateView) (k : FileKey) :
    (t.publish v).fileAt k = if k = v.key then (t.fileAt k).push v.type t.stateRefs else t.fileAt k := by
  simp only [fileAt, Tables.publish, update_apply]
  split
  · rename_i h
    rw [h]
    rfl
  · rfl

theorem states_publish (t : Tables) (v : StateView) (r : StateRef) :
    (t.publish v).states r = if r = t.stateRefs then v else t.states r := update_apply _ _ _ _

theorem state_publish (t : Tables) (v : StateView) : (t.publish v).State t.stateRefs v.client v.type := by
  refine ⟨Nat.lt_succ_self _, ?_, ?_⟩ <;> rw [states_publish, if_pos rfl]

theorem Wf.publish (h : t.Wf cfg) {v : StateView} (hclient : v.client < t.clientRefs)
    (hlock : v.type = .kLock → v.lowner = makeLowner (t.clients v.client).clientid v.owner ∧
      ∃ p, v.parentOpen = some p ∧ t.State p v.client .kOpen ∧ (t.states p).key = v.key) :
    (t.publish v).Wf cfg := by
  have he := Extends.publish (t := t) v
  have hnew : (t.publish v).states t.stateRefs = v := by simp [Tables.publish]
  have hlt : t.stateRefs < (t.publish v).stateRefs := Nat.lt_succ_self _
  refine { h with records := fun r hr => ?_, table := fun o r hr => ?_, files := fun k type r hr => ?_,
                  watch := fun r hr => ⟨(h.watch r hr).1.trans_le he.stateRefs, (he.type (h.watch r hr).1).trans (h.watch r hr).2⟩ }
  · by_cases hr' : r < t.stateRefs
    · exact Record.extends hr' (h.records r hr') he
    · have hlast : r ≤ t.stateRefs := Nat.lt_succ_iff.mp hr
      obtain rfl : r = t.stateRefs := by omega
      refine ⟨by rw [hnew]; exact hclient, fun htype => ?_⟩
      rw [hnew] at htype ⊢
      obtain ⟨hlowner, p, hparent, hp, hkey⟩ := hlock htype
      exact ⟨hlowner, p, hparent, hp.extends he, (he.key hp.1).trans hkey⟩
  · obtain ⟨hr1, hr2⟩ := h.table o r hr
    exact ⟨hr1.trans_le he.stateRefs, (he.other hr1).trans hr2⟩
  · have hold : r ∈ (t.fileAt k).list type → r < (t.publish v).stateRefs ∧ ((t.publish v).states r).type = type ∧
        ((t.publish v).states r).key = k := by
      intro hmem
      obtain ⟨hr1, hr2, hr3⟩ := h.files k type r hmem
      exact ⟨hr1.trans_le he.stateRefs, (he.type hr1).trans hr2, (he.key hr1).trans hr3⟩
    rw [fileAt_publish] at hr
    split at hr
    · rename_i hk
      rw [FileStateRec.list_push] at hr
      split at hr
      · rename_i htype
        rcases List.mem_append.mp hr with hmem | hmem
        · exact hold hmem
        · obtain rfl := List.mem_singleton.mp hmem
          exact ⟨hlt, by rw [hnew, htype], by rw [hnew, hk]⟩
      · exact hold hr
    · exact hold hr

end Stability

end Tables

end LightNfs
