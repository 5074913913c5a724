import LightNfs.State.Duties
import LightNfs.State.Filed

/-!
# The client table

Client ids are minted from a counter, so no two records share one until it wraps. A record is in `by_id` and
in the id index together, from its registration until it is replaced, lapses or expires, and never again after.
-/

namespace LightNfs

open Function

namespace Shared

theorem toNat_clientidOf (cfg : Config) (k : UInt32) :
    (clientidOf cfg k).toNat = cfg.bootEpoch.toNat * 2 ^ 32 + k.toNat := by
  have hepoch : cfg.bootEpoch.toNat < 2 ^ 32 := cfg.bootEpoch_lt
  have hk : k.toNat < 2 ^ 32 := k.toNat_lt
  have hshift : cfg.bootEpoch.toNat <<< 32 < 2 ^ 64 := by
    rw [Nat.shiftLeft_eq]
    omega
  have hor := Nat.shiftLeft_add_eq_or_of_lt hk cfg.bootEpoch.toNat
  simp only [clientidOf, UInt64.toNat_or, UInt64.toNat_shiftLeft]
  simp only [UInt32.toNat_toUInt64, UInt64.reduceToNat, Nat.reduceMod]
  rw [Nat.mod_eq_of_lt hshift, ← hor, Nat.shiftLeft_eq]

theorem clientidOf_epoch (cfg : Config) (k : UInt32) : clientidOf cfg k >>> 32 = cfg.bootEpoch := by
  have hk : k.toNat < 2 ^ 32 := k.toNat_lt
  apply UInt64.toNat_inj.mp
  rw [UInt64.toNat_shiftRight, toNat_clientidOf, Nat.shiftRight_eq_div_pow]
  simp only [UInt64.reduceToNat, Nat.reduceMod]
  omega

theorem clientidOf_injective (cfg : Config) {j k : UInt32} (h : clientidOf cfg j = clientidOf cfg k) : j = k := by
  have hnat := congrArg UInt64.toNat h
  rw [toNat_clientidOf, toNat_clientidOf] at hnat
  apply UInt32.toNat_inj.mp
  omega

end Shared

/-- The frames that may drop a client which holds nothing. -/
def Frame.Discards : Frame → Prop
  | exchangeId _ | destroyClient _ _ | scanClient _ _ _ _ => True
  | _ => False

namespace Tables

/-- Ids are unique and below the counter, and the two indexes agree. -/
structure Indexed (cfg : Config) (t : Tables) : Prop where
  unique : ∀ c d, c < t.clientRefs → d < t.clientRefs → (t.clients c).clientid = (t.clients d).clientid → c = d
  minted : ∀ c < t.clientRefs, ∃ k, (t.clients c).clientid = Shared.clientidOf cfg k ∧
    (t.nextClient ≠ 0 → k < t.nextClient)
  idx : ∀ c < t.clientRefs, t.clientIdx (t.clients c).clientid = some c ↔ t.Registered cfg c
  expired : ∀ c < t.clientRefs, (t.clients c).expired = true → ¬t.Registered cfg c

structure SameIds (t t' : Tables) : Prop where
  clientRefs : t'.clientRefs = t.clientRefs
  nextClient : t'.nextClient = t.nextClient
  clientid : ∀ c, (t'.clients c).clientid = (t.clients c).clientid
  ownerId : ∀ c, (t'.clients c).ownerId = (t.clients c).ownerId

namespace SameIds

variable {cfg : Config} {t t' t'' : Tables}

theorem refl (t : Tables) : t.SameIds t := ⟨rfl, rfl, fun _ => rfl, fun _ => rfl⟩

theorem trans (h : t.SameIds t') (h' : t'.SameIds t'') : t.SameIds t'' where
  clientRefs := h'.clientRefs.trans h.clientRefs
  nextClient := h'.nextClient.trans h.nextClient
  clientid c := (h'.clientid c).trans (h.clientid c)
  ownerId c := (h'.ownerId c).trans (h.ownerId c)

theorem idKey (h : t.SameIds t') (c : ClientRef) : t'.idKey cfg c = t.idKey cfg c := by
  rw [Tables.idKey, Tables.idKey, h.clientid, h.ownerId]

theorem setClient {c : ClientRef} {v : ClientView} (hid : v.clientid = (t.clients c).clientid)
    (howner : v.ownerId = (t.clients c).ownerId) : t.SameIds (t.setClient c v) := by
  refine ⟨rfl, rfl, fun d => ?_, fun d => ?_⟩
  · simp only [Tables.setClient, update_apply]
    split
    · rename_i h
      rw [hid, h]
    · rfl
  · simp only [Tables.setClient, update_apply]
    split
    · rename_i h
      rw [howner, h]
    · rfl

theorem unpersist (cfg : Config) (t : Tables) (c : ClientRef) : t.SameIds (t.unpersist cfg c) := by
  unfold Tables.unpersist
  split
  · exact setClient rfl rfl
  · exact refl t

theorem addSession (t : Tables) (c : ClientRef) (args : CreateArgs) (id : SessionId) :
    t.SameIds (t.addSession c args id) := by
  have hnext : t.SameIds { t with nextSession := t.nextSession + 1 } := ⟨rfl, rfl, fun _ => rfl, fun _ => rfl⟩
  exact hnext.trans (setClient rfl rfl)

theorem promoted (cfg : Config) (t : Tables) (c : ClientRef) :
    (t.retireOld cfg c).SameIds (t.confirmIncarnation cfg c) := by
  refine .trans ?_ (setClient ?_ ?_)
  · exact ⟨rfl, rfl, fun _ => rfl, fun _ => rfl⟩
  · rfl
  · rfl

theorem confirmIncarnation (cfg : Config) (t : Tables) (c : ClientRef) : t.SameIds (t.confirmIncarnation cfg c) := by
  refine .trans ?_ (promoted cfg t c)
  unfold retireOld
  split
  · have hretire : ∀ old, t.SameIds (t.retire old) := fun _ => setClient rfl rfl
    exact (hretire _).trans ⟨rfl, rfl, fun _ => rfl, fun _ => rfl⟩
  · exact refl t

theorem dropUnconfirmed (cfg : Config) (t : Tables) (slot : OwnerSlot) : t.SameIds (t.dropUnconfirmed cfg slot) := by
  unfold Tables.dropUnconfirmed
  split
  · exact ⟨rfl, rfl, fun _ => rfl, fun _ => rfl⟩
  · exact refl t

end SameIds

variable {cfg : Config} {t t' : Tables}
variable {c d : ClientRef} {f : Frame} {o : Bytes} {u : Tables}
variable {slot : OwnerSlot}

theorem Indexed.restrict (h : t.Indexed cfg) (hids : t.SameIds t') {k : ClientRef → Prop}
    (hreg : ∀ c < t.clientRefs, t'.Registered cfg c ↔ t.Registered cfg c ∧ k c)
    (hidx : ∀ c < t.clientRefs, t'.clientIdx (t.clients c).clientid = some c ↔
      t.clientIdx (t.clients c).clientid = some c ∧ k c)
    (hexp : ∀ c < t.clientRefs, (t'.clients c).expired = true → (t.clients c).expired = true ∨ ¬k c) :
    t'.Indexed cfg := by
  refine ⟨fun c d hc hd hcd => ?_, fun c hc => ?_, fun c hc => ?_, fun c hc hc' => ?_⟩
  · rw [hids.clientRefs] at hc hd
    rw [hids.clientid, hids.clientid] at hcd
    exact h.unique c d hc hd hcd
  · rw [hids.clientRefs] at hc
    rw [hids.clientid, hids.nextClient]
    exact h.minted c hc
  · rw [hids.clientRefs] at hc
    rw [hids.clientid, hidx c hc, hreg c hc, h.idx c hc]
  · rw [hids.clientRefs] at hc
    rw [hreg c hc]
    rintro ⟨hregistered, hkeep⟩
    exact h.expired c hc ((hexp c hc hc').resolve_right (not_not.mpr hkeep)) hregistered

theorem Indexed.same (h : t.Indexed cfg) (hids : t.SameIds t') (hbyId : t'.byId = t.byId)
    (hidx : t'.clientIdx = t.clientIdx)
    (hexp : ∀ c, (t'.clients c).expired = true → (t.clients c).expired = true) : t'.Indexed cfg := by
  refine h.restrict (k := fun _ => True) hids (fun c _ => ?_) (fun c _ => ?_) fun c _ hc => Or.inl (hexp c hc)
  · rw [Registered, Registered, hids.idKey, hbyId, and_true]
  · rw [hidx, and_true]

/-! ### Taking a record out -/

theorem registered_unindex (h : t.Indexed cfg) (hids : t.SameIds t') (hbyId : t'.byId = t.byId)
    (hc : c < t.clientRefs) (hd : d < t.clientRefs) :
    (t'.unindex cfg c).Registered cfg d ↔ t.Registered cfg d ∧ d ≠ c := by
  have hreg : (t'.unindex cfg c).Registered cfg d ↔
      update t'.byId (t'.idKey cfg c) none (t'.idKey cfg d) = some d := Iff.rfl
  rw [hreg, hids.idKey, hids.idKey, hbyId, update_apply, Registered]
  by_cases hdc : d = c
  · simp [hdc]
  · have hne : t.idKey cfg d ≠ t.idKey cfg c := fun heq => hdc (h.unique d c hd hc (congrArg Prod.snd heq))
    simp [hne, hdc]

theorem not_registered_unindex (cfg : Config) (t : Tables) (c : ClientRef) : ¬(t.unindex cfg c).Registered cfg c := by
  simp [Registered, Tables.unindex, Tables.idKey]

theorem Indexed.unindex (h : t.Indexed cfg) (hids : t.SameIds t') (hbyId : t'.byId = t.byId)
    (hidx : t'.clientIdx = t.clientIdx) (hc : c < t.clientRefs)
    (hexp : ∀ d, (t'.clients d).expired = true → (t.clients d).expired = true ∨ d = c) :
    (t'.unindex cfg c).Indexed cfg := by
  have hids' : t.SameIds (t'.unindex cfg c) := hids.trans ⟨rfl, rfl, fun _ => rfl, fun _ => rfl⟩
  refine h.restrict (k := (· ≠ c)) hids' (fun d hd => ?_) (fun d hd => ?_) fun d _ hd => ?_
  · exact registered_unindex h hids hbyId hc hd
  · simp only [Tables.unindex, hidx, hids.clientid, update_apply]
    by_cases hdc : d = c
    · simp [hdc]
    · have hne : (t.clients d).clientid ≠ (t.clients c).clientid := fun heq => hdc (h.unique d c hd hc heq)
      simp [hne, hdc]
  · exact (hexp d hd).imp id not_not.mpr

theorem expired_setClient {v : ClientView} (hv : v.expired = (t.clients c).expired) (d : ClientRef) :
    ((t.setClient c v).clients d).expired = (t.clients d).expired := by
  simp only [setClient, update_apply]
  split
  · rename_i h
    rw [hv, h]
  · rfl

theorem expired_retire (t : Tables) (c d : ClientRef) (h : ((t.retire c).clients d).expired = true) :
    (t.clients d).expired = true ∨ d = c := by
  simp only [retire, setClient, update_apply] at h
  split at h
  · rename_i heq
    exact Or.inr heq
  · exact Or.inl h

theorem expired_unpersist (t : Tables) (c d : ClientRef) :
    ((t.unpersist cfg c).clients d).expired = (t.clients d).expired := by
  unfold unpersist
  split
  · apply expired_setClient
    rfl
  · rfl

theorem byId_unpersist (t : Tables) (c : ClientRef) : (t.unpersist cfg c).byId = t.byId := by
  unfold unpersist
  split <;> rfl

theorem byOwner_unpersist (t : Tables) (c : ClientRef) : (t.unpersist cfg c).byOwner = t.byOwner := by
  unfold unpersist
  split <;> rfl

theorem byOwner_vacated (hu : t.Vacated cfg o slot u) :
    u.byOwner = t.byOwner := by
  cases hu with
  | same => rfl
  | evicted => exact byOwner_unpersist t _

theorem clientIdx_unpersist (t : Tables) (c : ClientRef) : (t.unpersist cfg c).clientIdx = t.clientIdx := by
  unfold unpersist
  split <;> rfl

theorem Indexed.remove (h : t.Indexed cfg) (hc : c < t.clientRefs) : (t.remove cfg c).Indexed cfg := by
  have hids : t.SameIds ((t.unpersist cfg c).clearSlot c) :=
    (SameIds.unpersist cfg t c).trans ⟨rfl, rfl, fun _ => rfl, fun _ => rfl⟩
  exact h.unindex hids (byId_unpersist t c) (clientIdx_unpersist t c) hc
    fun d hd => Or.inl ((expired_unpersist t c d).symm.trans hd)

theorem Indexed.expire (h : t.Indexed cfg) {c : ClientRef} (hc : c < t.clientRefs) :
    (((t.retire c).clearSlot c).unindex cfg c).Indexed cfg := by
  have hids : t.SameIds ((t.retire c).clearSlot c) :=
    .trans (SameIds.setClient rfl rfl : t.SameIds (t.retire c)) ⟨rfl, rfl, fun _ => rfl, fun _ => rfl⟩
  exact h.unindex hids rfl rfl hc (expired_retire t c)

theorem Indexed.dropUnconfirmed (h : t.Indexed cfg)
    (hslot : ∀ u, slot.unconfirmed = some u → u < t.clientRefs) : (t.dropUnconfirmed cfg slot).Indexed cfg := by
  unfold Tables.dropUnconfirmed
  split
  · rename_i u hu
    exact h.unindex (SameIds.refl t) rfl rfl (hslot u hu) fun _ hd => Or.inl hd
  · exact h

theorem Indexed.vacated (h : t.Indexed cfg) (hwf : t.Wf cfg)
    (hu : t.Vacated cfg o slot u) : u.Indexed cfg := by
  cases hu with
  | same => exact h
  | evicted hconf =>
    exact h.unindex (SameIds.unpersist cfg t _) (byId_unpersist t _) (clientIdx_unpersist t _) (hwf.confirmed _ _ hconf).1
      fun d hd => Or.inl ((expired_unpersist t _ d).symm.trans hd)

theorem Indexed.confirmIncarnation (h : t.Indexed cfg) (hwf : t.Wf cfg) (c : ClientRef) :
    (t.confirmIncarnation cfg c).Indexed cfg := by
  have hold : (t.retireOld cfg c).Indexed cfg := by
    unfold retireOld
    split
    · rename_i old hold
      have hslot : (t.byOwner (t.clients c).ownerId).confirmed = some old := (Option.filter_eq_some_iff.mp hold).1
      have hids : t.SameIds (t.retire old) := SameIds.setClient rfl rfl
      exact h.unindex hids rfl rfl (hwf.confirmed _ _ hslot).1 (expired_retire t old)
    · exact h
  refine hold.same (SameIds.promoted cfg t c) rfl rfl fun d hd => ?_
  simp only [Tables.confirmIncarnation, setClient, setSlot, update_apply] at hd
  split at hd
  · rename_i hdc
    rw [hdc]
    exact hd
  · exact hd

theorem Indexed.addSession (h : t.Indexed cfg) (c : ClientRef) (args : CreateArgs) (id : SessionId) :
    (t.addSession c args id).Indexed cfg := by
  refine h.same (SameIds.addSession t c args id) rfl rfl fun d hd => ?_
  simp only [Tables.addSession, setClient, update_apply] at hd
  split at hd
  · rename_i hdc
    rw [hdc]
    exact hd
  · exact hd

/-! ### A new record -/

theorem clients_addClient {args : ExchangeArgs} (hc : c < t.clientRefs) :
    (t.addClient cfg args slot).clients c = t.clients c := by
  simp only [addClient, update_apply]
  rw [if_neg (Nat.ne_of_lt hc)]

theorem clientid_ne_next (h : t.Indexed cfg) (hnext : t.nextClient ≠ 0) (hc : c < t.clientRefs) :
    (t.clients c).clientid ≠ Shared.clientidOf cfg t.nextClient := by
  intro heq
  obtain ⟨k, hk, hlt⟩ := h.minted c hc
  have hkn : k = t.nextClient := Shared.clientidOf_injective cfg (hk.symm.trans heq)
  have hlt' := hlt hnext
  rw [hkn] at hlt'
  exact absurd hlt' (UInt32.lt_irrefl _)

theorem registered_addClient (h : t.Indexed cfg) (hnext : t.nextClient ≠ 0) {args : ExchangeArgs}
    (hc : c < t.clientRefs) :
    (t.addClient cfg args slot).Registered cfg c ↔ t.Registered cfg c := by
  have hne : t.idKey cfg c ≠ (cfg.ownerShard args.ownerId, Shared.clientidOf cfg t.nextClient) :=
    fun heq => clientid_ne_next h hnext hc (congrArg Prod.snd heq)
  have hkey : (t.addClient cfg args slot).idKey cfg c = t.idKey cfg c := by
    rw [idKey, idKey, clients_addClient hc]
  rw [Registered, Registered, hkey]
  simp only [addClient, update_apply]
  rw [if_neg hne]

theorem registered_new (t : Tables) (args : ExchangeArgs) (slot : OwnerSlot) :
    (t.addClient cfg args slot).Registered cfg t.clientRefs := by
  simp [Registered, idKey, addClient]

theorem Indexed.addClient (h : t.Indexed cfg) (hnext : t.nextClient ≠ 0) (args : ExchangeArgs) (slot : OwnerSlot) :
    (t.addClient cfg args slot).Indexed cfg := by
  have hnew : (t.addClient cfg args slot).clients t.clientRefs =
      { clientid := Shared.clientidOf cfg t.nextClient, ownerId := args.ownerId, principal := args.principal,
        confirmed := false, csSequence := 1, csCachedReply := [], sessions := [], expired := false, states := [],
        held := fun _ => 0 } := by simp [Tables.addClient]
  have hcases : ∀ c, c < (t.addClient cfg args slot).clientRefs → c < t.clientRefs ∨ c = t.clientRefs :=
    fun c hc => Nat.lt_succ_iff_lt_or_eq.mp hc
  refine ⟨fun c d hc hd hcd => ?_, fun c hc => ?_, fun c hc => ?_, fun c hc hexp => ?_⟩
  · rcases hcases c hc with hc | rfl <;> rcases hcases d hd with hd | rfl
    · rw [clients_addClient hc, clients_addClient hd] at hcd
      exact h.unique c d hc hd hcd
    · rw [clients_addClient hc, hnew] at hcd
      exact absurd hcd (clientid_ne_next h hnext hc)
    · rw [clients_addClient hd, hnew] at hcd
      exact absurd hcd.symm (clientid_ne_next h hnext hd)
    · rfl
  · have hstep : (t.addClient cfg args slot).nextClient ≠ 0 → t.nextClient < (t.addClient cfg args slot).nextClient := by
      intro hwrap
      have hwrap' : t.nextClient + 1 ≠ 0 := hwrap
      show t.nextClient < t.nextClient + 1
      lia
    rcases hcases c hc with hc | rfl
    · obtain ⟨k, hk, hlt⟩ := h.minted c hc
      rw [clients_addClient hc]
      exact ⟨k, hk, fun hwrap => UInt32.lt_trans (hlt hnext) (hstep hwrap)⟩
    · exact ⟨t.nextClient, by rw [hnew], hstep⟩
  · rcases hcases c hc with hc | rfl
    · rw [registered_addClient h hnext hc, ← h.idx c hc, clients_addClient hc]
      simp only [Tables.addClient, update_apply]
      rw [if_neg (clientid_ne_next h hnext hc)]
    · rw [hnew]
      simp only [Tables.addClient, update_self, true_iff]
      exact registered_new t args slot
  · rcases hcases c hc with hc | rfl
    · rw [clients_addClient hc] at hexp
      rw [registered_addClient h hnext hc]
      exact h.expired c hc hexp
    · rw [hnew] at hexp
      exact absurd hexp (by simp)

/-! ### Every frame -/

/-- A registration finds the id counter not wrapped. -/
def ClientIdsLeft (t : Tables) : Frame → Prop
  | .exchangeId _ => t.nextClient ≠ 0
  | _ => True

instance (t : Tables) (f : Frame) : Decidable (t.ClientIdsLeft f) := by
  apply @Frame.casesOn _ f <;> intros <;> dsimp only [ClientIdsLeft] <;> infer_instance

theorem unconfirmed_of_vacated (hwf : t.Wf cfg)
    (hu : t.Vacated cfg o slot u) (hc : slot.unconfirmed = some c) :
    (t.byOwner o).unconfirmed = some c ∧ c < u.clientRefs := by
  have hslot : (t.byOwner o).unconfirmed = some c := by
    cases hu with
    | same => exact hc
    | evicted => exact hc
  exact ⟨hslot, (hwf.unconfirmed o c hslot).1.trans_le (Extends.vacated hu).clientRefs⟩

theorem SameIds.vacated (hu : t.Vacated cfg o slot u) : t.SameIds u := by
  cases hu with
  | same => exact refl t
  | evicted => exact (unpersist cfg t _).trans ⟨rfl, rfl, fun _ => rfl, fun _ => rfl⟩

theorem Indexed.boot (cfg : Config) : LightNfs.boot.state.tables.Indexed cfg where
  unique c _ hc := absurd hc (Nat.not_lt_zero c)
  minted c hc := absurd hc (Nat.not_lt_zero c)
  idx c hc := absurd hc (Nat.not_lt_zero c)
  expired c hc := absurd hc (Nat.not_lt_zero c)

theorem Indexed.change (h : t.Indexed cfg) (hwf : t.Wf cfg) (hf : f.Wf t) (hids : t.ClientIdsLeft f)
    (hc : Change cfg t f t') : t'.Indexed cfg := by
  have hset : ∀ {u : Tables} {c : ClientRef} {v : ClientView}, u.Indexed cfg →
      v.clientid = (u.clients c).clientid → v.ownerId = (u.clients c).ownerId →
      v.expired = (u.clients c).expired → (u.setClient c v).Indexed cfg := fun hu hid hown hexp =>
    hu.same (SameIds.setClient hid hown) rfl rfl fun d hd => (expired_setClient hexp d).symm.trans hd
  have hother : t'.clients = t.clients → t'.clientRefs = t.clientRefs → t'.nextClient = t.nextClient →
      t'.byId = t.byId → t'.clientIdx = t.clientIdx → t'.Indexed cfg := fun hcl hrefs hnext hid hidx =>
    h.same ⟨hrefs, hnext, fun _ => by rw [hcl], fun _ => by rw [hcl]⟩ hid hidx fun c hc => by rwa [hcl] at hc
  cases hc with
  | exchangeFull hu =>
    have hdrop := (h.vacated hwf hu).dropUnconfirmed fun c hc => (unconfirmed_of_vacated hwf hu hc).2
    exact hdrop.same ⟨rfl, rfl, fun _ => rfl, fun _ => rfl⟩ rfl rfl fun _ hd => hd
  | exchangeNew hu =>
    have hdrop := (h.vacated hwf hu).dropUnconfirmed fun c hc => (unconfirmed_of_vacated hwf hu hc).2
    refine hdrop.addClient ?_ _ _
    rw [(SameIds.dropUnconfirmed cfg _ _).nextClient, (SameIds.vacated hu).nextClient]
    exact hids
  | createAgain => exact h.addSession _ _ _
  | createFirst => exact (h.confirmIncarnation hwf _).addSession _ _ _
  | cacheReply | dropSession | track | untrack => exact hset h rfl rfl rfl
  | destroyClient | scanLapsed => exact h.remove hf.1
  | expire => exact h.expire hf.1
  | unpersist =>
    exact h.same (SameIds.unpersist cfg t _) (byId_unpersist t _) (clientIdx_unpersist t _)
      fun d hd => (expired_unpersist t _ d).symm.trans hd
  | @dropFromFile r =>
    obtain ⟨files, heq⟩ := t.dropFromFile_eq r
    rw [heq]
    exact h.same ⟨rfl, rfl, fun _ => rfl, fun _ => rfl⟩ rfl rfl fun _ hd => hd
  | _ => exact hother rfl rfl rfl rfl rfl

/-! ### What happens to a client record -/

/-- The frame starts the reclaim chain of the client: it expires it, or confirms its next incarnation. -/
def Retires (t : Tables) (c : ClientRef) : Frame → Prop
  | .expireSection c' _ _ => c' = c
  | .createClient d _ => t.oldIncarnation d = some c
  | _ => False

/-- The contents a frame may leave in a client record. -/
inductive ClientStep (t : Tables) (c : ClientRef) : Frame → ClientView → Prop
  | kept {f : Frame} : ClientStep t c f (t.clients c)
  | forgot {f : Frame} (hidle : (t.clients c).expired = true ∨ ((t.clients c).confirmed = true → (t.clients c).states = [])) :
      ClientStep t c f { t.clients c with held := fun _ => 0 }
  | session {args : CreateArgs} {id : SessionId} (hid : id.clientid = (t.clients c).clientid ∧ id.counter = t.nextSession) :
      ClientStep t c (.createClient c args)
        { t.clients c with
          confirmed := true, csSequence := args.sequence + 1, sessions := (t.clients c).sessions ++ [id] }
  | retired {f : Frame} (hf : t.Retires c f) :
      ClientStep t c f { t.clients c with expired := true, sessions := [], states := [] }
  | reply {clientid : UInt64} {reply : Bytes} :
      ClientStep t c (.confirmClient c clientid reply) { t.clients c with csCachedReply := reply }
  | dropped {id : SessionId} :
      ClientStep t c (.destroySessionClient c id)
        { t.clients c with sessions := (t.clients c).sessions.filter (· ≠ id) }
  | tracked {f : Frame} {r : StateRef} (hf : f.Tracks c r) (hexp : (t.clients c).expired = false) :
      ClientStep t c f
        { t.clients c with
          states := (t.clients c).states.insert (t.states r).other
          held := update (t.clients c).held (t.states r).key.fsid
            ((t.clients c).held (t.states r).key.fsid + 1) }
  | untracked {r : StateRef} {handover : Bool} (hclient : (t.states r).client = c) :
      ClientStep t c (.untrackState r handover)
        { t.clients c with
          states := (t.clients c).states.filter (· ≠ (t.states r).other)
          held := update (t.clients c).held (t.states r).key.fsid
            ((t.clients c).held (t.states r).key.fsid - 1) }

theorem clientStep_set {v : ClientView} (hv : c = d → t.ClientStep c f v) :
    t.ClientStep c f ((t.setClient d v).clients c) := by
  simp only [setClient, update_apply]
  split
  · rename_i h
    exact hv h
  · exact .kept

theorem clientStep_unpersist (c : ClientRef)
    (hidle : (t.clients d).expired = true ∨ ((t.clients d).confirmed = true → (t.clients d).states = [])) :
    t.ClientStep c f ((t.unpersist cfg d).clients c) := by
  unfold unpersist
  split
  · refine clientStep_set fun hcd => ?_
    subst hcd
    exact .forgot hidle
  · exact .kept

theorem clientStep_createFirst {args : CreateArgs} {id : SessionId} (c : ClientRef)
    (hid : id.clientid = (t.clients d).clientid ∧ id.counter = t.nextSession) :
    t.ClientStep c (.createClient d args) (((t.confirmIncarnation cfg d).addSession d args id).clients c) := by
  have hold : ∀ e, e ≠ d → t.ClientStep e (.createClient d args) ((t.retireOld cfg d).clients e) := by
    intro e he
    unfold retireOld
    split
    · rename_i old hold
      refine clientStep_set fun hcd => ?_
      subst hcd
      exact .retired hold
    · exact .kept
  have hmine : (t.retireOld cfg d).clients d = t.clients d := by
    unfold retireOld
    split
    · rename_i old hold
      have hne : old ≠ d := by simpa using (Option.filter_eq_some_iff.mp hold).2
      simp [unindex, retire, setClient, hne.symm]
    · rfl
  by_cases hcd : c = d
  · subst hcd
    have hview : ((t.confirmIncarnation cfg c).addSession c args id).clients c =
        { t.clients c with
          confirmed := true, csSequence := args.sequence + 1, sessions := (t.clients c).sessions ++ [id] } := by
      simp [addSession, confirmIncarnation, setClient, setSlot, hmine]
    rw [hview]
    exact .session hid
  · have hview : ((t.confirmIncarnation cfg d).addSession d args id).clients c = (t.retireOld cfg d).clients c := by
      simp [addSession, confirmIncarnation, setClient, setSlot, hcd]
    rw [hview]
    exact hold c hcd

theorem clientStep_change (hf : f.Wf t) (hc : Change cfg t f t') (hlt : c < t.clientRefs) :
    t.ClientStep c f (t'.clients c) := by
  have hvacated : ∀ {o : Bytes} {slot : OwnerSlot} {u : Tables}, t.Vacated cfg o slot u →
      t.ClientStep c f ((u.dropUnconfirmed cfg slot).clients c) := by
    intro o slot u hu
    have hclients : (u.dropUnconfirmed cfg slot).clients = u.clients := by
      unfold dropUnconfirmed
      split <;> rfl
    rw [hclients]
    cases hu with
    | same => exact .kept
    | evicted hconf hsessions hstates => exact clientStep_unpersist c (Or.inr fun _ => hstates)
  cases hc with
  | exchangeFull hu => exact hvacated hu
  | exchangeNew hu =>
    rw [clients_addClient]
    · exact hvacated hu
    · rw [(SameIds.dropUnconfirmed cfg _ _).clientRefs, (SameIds.vacated hu).clientRefs]
      exact hlt
  | @createAgain d args nonce hconf =>
    show t.ClientStep c _ ((t.setClient d _).clients c)
    refine clientStep_set fun hcd => ?_
    subst hcd
    dsimp only
    rw [hconf]
    exact .session ⟨rfl, rfl⟩
  | createFirst => exact clientStep_createFirst c ⟨rfl, rfl⟩
  | cacheReply =>
    refine clientStep_set fun hcd => ?_
    subst hcd
    exact .reply
  | dropSession =>
    refine clientStep_set fun hcd => ?_
    subst hcd
    exact .dropped
  | destroyClient hreg hsessions hstates => exact clientStep_unpersist c (Or.inr fun _ => hstates)
  | scanLapsed hreg hexp hidle =>
    refine clientStep_unpersist c (Or.inr fun hconf => ?_)
    rcases hidle with hnew | hidle
    · simp [hnew] at hconf
    · exact hidle.2
  | expire =>
    refine clientStep_set fun hcd => ?_
    subst hcd
    exact .retired rfl
  | unpersist => exact clientStep_unpersist c (Or.inl hf.2)
  | track hft hexp =>
    refine clientStep_set fun hcd => ?_
    subst hcd
    exact .tracked hft hexp
  | untrack =>
    refine clientStep_set fun hcd => ?_
    subst hcd
    exact .untracked rfl
  | @dropFromFile r =>
    obtain ⟨files, heq⟩ := t.dropFromFile_eq r
    rw [heq]
    exact .kept
  | _ => exact .kept

theorem sessions_new (hc : Change cfg t f t') (hge : ¬c < t.clientRefs)
    (hlt : c < t'.clientRefs) : (t'.clients c).sessions = [] := by
  cases hc with
  | @exchangeNew args slot u hu =>
    have hrefs : (u.dropUnconfirmed cfg slot).clientRefs = t.clientRefs := by
      rw [(SameIds.dropUnconfirmed cfg _ _).clientRefs, (SameIds.vacated hu).clientRefs]
    have hc' : c = (u.dropUnconfirmed cfg slot).clientRefs := by
      rcases Nat.lt_succ_iff_lt_or_eq.mp hlt with hlt | heq
      · exact absurd (hrefs ▸ hlt) hge
      · exact heq
    rw [hc']
    simp [addClient]
  | exchangeFull hu =>
    exact absurd (hlt.trans_eq ((SameIds.vacated hu).trans (SameIds.dropUnconfirmed cfg _ _)).clientRefs) hge
  | createFirst => exact absurd (hlt.trans_eq (SameIds.confirmIncarnation cfg t _).clientRefs) hge
  | destroyClient | scanLapsed => exact absurd (hlt.trans_eq (SameIds.unpersist cfg t _).clientRefs) hge
  | unpersist => exact absurd (hlt.trans_eq (SameIds.unpersist cfg t _).clientRefs) hge
  | @dropFromFile r =>
    obtain ⟨files, heq⟩ := t.dropFromFile_eq r
    rw [heq] at hlt
    exact absurd hlt hge
  | _ => exact absurd hlt hge

/-! ### Who leaves the client table -/

/-- A record that waits for its first session is not confirmed. -/
def FreshSlots (t : Tables) : Prop := ∀ o c, (t.byOwner o).unconfirmed = some c → (t.clients c).confirmed = false

/-- The ways out: a client that holds nothing, or was never confirmed, is dropped; one that is expired or
replaced by its next incarnation has what it holds torn down. -/
inductive Leaves (t t' : Tables) (c : ClientRef) : Frame → Prop
  | idle {f : Frame} (hf : f.Discards) (hsessions : (t.clients c).confirmed = true → (t.clients c).sessions = [])
      (hstates : (t.clients c).confirmed = true → (t.clients c).states = []) : Leaves t t' c f
  | expired {clientid : UInt64} {reason : Reason} (hexp : (t'.clients c).expired = true) :
      Leaves t t' c (.expireSection c clientid reason)
  | replaced {d : ClientRef} {args : CreateArgs} (hold : t.oldIncarnation d = some c)
      (hnew : (t.clients d).confirmed = false) (hseq : args.sequence = (t.clients d).csSequence)
      (hexp : (t'.clients c).expired = true) : Leaves t t' c (.createClient d args)

theorem registered_same (hids : t.SameIds t') (hbyId : t'.byId = t.byId) (c : ClientRef) :
    t'.Registered cfg c ↔ t.Registered cfg c := by
  rw [Registered, Registered, hids.idKey, hbyId]

theorem registered_dropUnconfirmed (h : t.Indexed cfg)
    (hslot : ∀ u, slot.unconfirmed = some u → u < t.clientRefs) (hc : c < t.clientRefs) :
    (t.dropUnconfirmed cfg slot).Registered cfg c ↔ t.Registered cfg c ∧ slot.unconfirmed ≠ some c := by
  unfold Tables.dropUnconfirmed
  split
  · rename_i u hu
    rw [registered_unindex h (SameIds.refl t) rfl (hslot u hu) hc, hu]
    simp [eq_comm]
  · rename_i hu
    simp [hu]

theorem registered_vacated (h : t.Indexed cfg) (hwf : t.Wf cfg)
    (hu : t.Vacated cfg o slot u) (hc : c < t.clientRefs) :
    (u.Registered cfg c → t.Registered cfg c) ∧
      (t.Registered cfg c → u.Registered cfg c ∨ (t.clients c).sessions = [] ∧ (t.clients c).states = []) := by
  cases hu with
  | same => exact ⟨id, Or.inl⟩
  | @evicted d hconf hsessions hstates =>
    rw [registered_unindex h (SameIds.unpersist cfg t d) (byId_unpersist t d) (hwf.confirmed _ _ hconf).1 hc]
    refine ⟨And.left, fun hreg => ?_⟩
    by_cases hcd : c = d
    · rw [hcd]
      exact Or.inr ⟨hsessions, hstates⟩
    · exact Or.inl ⟨hreg, hcd⟩

theorem registered_exchange (h : t.Indexed cfg) (hwf : t.Wf cfg) (hfresh : t.FreshSlots) (hu : t.Vacated cfg o slot u)
    (hf : f.Discards) (hc : c < t.clientRefs) :
    ((u.dropUnconfirmed cfg slot).Registered cfg c → t.Registered cfg c) ∧
      (t.Registered cfg c → (u.dropUnconfirmed cfg slot).Registered cfg c ∨ t.Leaves t' c f) := by
  obtain ⟨hback, hout⟩ := registered_vacated h hwf hu hc
  have hdrop := registered_dropUnconfirmed (h.vacated hwf hu) (fun d hd => (unconfirmed_of_vacated hwf hu hd).2)
    (hc.trans_le (Extends.vacated hu).clientRefs)
  refine ⟨fun hreg => hback (hdrop.mp hreg).1, fun hreg => ?_⟩
  rcases hout hreg with hreg | hidle
  · by_cases hslot : slot.unconfirmed = some c
    · have hnew : (t.clients c).confirmed = false := hfresh o c (unconfirmed_of_vacated hwf hu hslot).1
      exact Or.inr (.idle hf (fun hconf => by simp [hnew] at hconf) fun hconf => by simp [hnew] at hconf)
    · exact Or.inl (hdrop.mpr ⟨hreg, hslot⟩)
  · exact Or.inr (.idle hf (fun _ => hidle.1) fun _ => hidle.2)

theorem registered_confirmIncarnation (h : t.Indexed cfg) (hwf : t.Wf cfg) (d : ClientRef)
    (hc : c < t.clientRefs) :
    (t.confirmIncarnation cfg d).Registered cfg c ↔ t.Registered cfg c ∧ t.oldIncarnation d ≠ some c := by
  rw [registered_same (SameIds.promoted cfg t d) rfl]
  unfold retireOld
  split
  · rename_i old hold
    have hslot : (t.byOwner (t.clients d).ownerId).confirmed = some old := (Option.filter_eq_some_iff.mp hold).1
    have hretire : t.SameIds (t.retire old) := SameIds.setClient rfl rfl
    rw [registered_unindex h hretire rfl (hwf.confirmed _ _ hslot).1 hc, hold]
    simp [eq_comm]
  · rename_i hold
    simp [hold]

theorem expired_oldIncarnation (hold : t.oldIncarnation d = some c) (args : CreateArgs) (id : SessionId) :
    (((t.confirmIncarnation cfg d).addSession d args id).clients c).expired = true := by
  have hne : c ≠ d := by simpa using (Option.filter_eq_some_iff.mp hold).2
  simp [addSession, confirmIncarnation, retireOld, hold, setClient, setSlot, unindex, retire, hne]

theorem registered_change (h : t.Indexed cfg) (hwf : t.Wf cfg) (hfresh : t.FreshSlots) (hf : f.Wf t)
    (hids : t.ClientIdsLeft f) (hc : Change cfg t f t') (hlt : c < t.clientRefs) :
    (t'.Registered cfg c → t.Registered cfg c) ∧ (t.Registered cfg c → t'.Registered cfg c ∨ t.Leaves t' c f) := by
  have hsame : (t'.Registered cfg c ↔ t.Registered cfg c) →
      (t'.Registered cfg c → t.Registered cfg c) ∧ (t.Registered cfg c → t'.Registered cfg c ∨ t.Leaves t' c f) :=
    fun hiff => ⟨hiff.mp, fun hreg => Or.inl (hiff.mpr hreg)⟩
  have hexcept : ∀ {p : Prop}, (t'.Registered cfg c ↔ t.Registered cfg c ∧ ¬p) → (p → t.Leaves t' c f) →
      (t'.Registered cfg c → t.Registered cfg c) ∧ (t.Registered cfg c → t'.Registered cfg c ∨ t.Leaves t' c f) := by
    intro p hiff hp
    refine ⟨fun hreg => (hiff.mp hreg).1, fun hreg => ?_⟩
    by_cases hp' : p
    · exact Or.inr (hp hp')
    · exact Or.inl (hiff.mpr ⟨hreg, hp'⟩)
  have hset : ∀ {d : ClientRef} {v : ClientView}, v.clientid = (t.clients d).clientid →
      v.ownerId = (t.clients d).ownerId → ((t.setClient d v).Registered cfg c ↔ t.Registered cfg c) :=
    fun hid hown => registered_same (SameIds.setClient hid hown) rfl c
  have hremove : ∀ {d : ClientRef}, d < t.clientRefs →
      ((t.remove cfg d).Registered cfg c ↔ t.Registered cfg c ∧ ¬c = d) := by
    intro d hd
    have hidsDrop : t.SameIds ((t.unpersist cfg d).clearSlot d) :=
      (SameIds.unpersist cfg t d).trans ⟨rfl, rfl, fun _ => rfl, fun _ => rfl⟩
    exact registered_unindex h hidsDrop (byId_unpersist t d) hd hlt
  cases hc with
  | exchangeFull hu => exact registered_exchange h hwf hfresh hu (f := .exchangeId _) trivial hlt
  | exchangeNew hu =>
    have hdrop := (h.vacated hwf hu).dropUnconfirmed fun d hd => (unconfirmed_of_vacated hwf hu hd).2
    rw [registered_addClient hdrop]
    · exact registered_exchange h hwf hfresh hu (f := .exchangeId _) trivial hlt
    · rw [(SameIds.dropUnconfirmed cfg _ _).nextClient, (SameIds.vacated hu).nextClient]
      exact hids
    · rw [(SameIds.dropUnconfirmed cfg _ _).clientRefs, (SameIds.vacated hu).clientRefs]
      exact hlt
  | createFirst hconf hseq =>
    refine hexcept (p := t.oldIncarnation _ = some c) ?_ fun hold =>
      .replaced hold hconf hseq (expired_oldIncarnation hold _ _)
    rw [← ne_eq, ← registered_confirmIncarnation h hwf _ hlt]
    exact registered_same (SameIds.addSession _ _ _ _) rfl c
  | destroyClient hreg hsessions hstates =>
    refine hexcept (hremove hf.1) fun hcd => ?_
    rw [hcd]
    exact .idle trivial (fun _ => hsessions) fun _ => hstates
  | scanLapsed hreg hexp hidle =>
    refine hexcept (hremove hf.1) fun hcd => ?_
    rw [hcd]
    rcases hidle with hnew | hidle
    · exact .idle trivial (fun hconf => by simp [hnew] at hconf) fun hconf => by simp [hnew] at hconf
    · exact .idle trivial (fun _ => hidle.1) fun _ => hidle.2
  | @expire d clientid reason hreg hexp =>
    have hretire : t.SameIds ((t.retire d).clearSlot d) :=
      .trans (SameIds.setClient rfl rfl : t.SameIds (t.retire d)) ⟨rfl, rfl, fun _ => rfl, fun _ => rfl⟩
    refine hexcept (p := c = d) (registered_unindex h hretire rfl hf.1 hlt) fun hcd => ?_
    rw [hcd]
    exact .expired (by simp [unindex, clearSlot, setSlot, retire, setClient])
  | unpersist => exact hsame (registered_same (SameIds.unpersist cfg t _) (byId_unpersist t _) c)
  | createAgain => exact hsame (registered_same (SameIds.addSession _ _ _ _) rfl c)
  | cacheReply | dropSession | track | untrack => exact hsame (hset rfl rfl)
  | @dropFromFile r =>
    obtain ⟨files, heq⟩ := t.dropFromFile_eq r
    rw [heq] at hsame ⊢
    exact hsame (registered_same ⟨rfl, rfl, fun _ => rfl, fun _ => rfl⟩ rfl c)
  | _ => exact hsame (registered_same ⟨rfl, rfl, fun _ => rfl, fun _ => rfl⟩ rfl c)

/-! ### Unconfirmed records -/

theorem unconfirmed_change (hwf : t.Wf cfg) (hc : Change cfg t f t')
    (h : (t'.byOwner o).unconfirmed = some c) :
    (t'.clients c).confirmed = false ∨
      (t.byOwner o).unconfirmed = some c ∧
        ∀ args, f = .createClient c args → (t'.clients c).confirmed = (t.clients c).confirmed := by
  have hwithout : ∀ {slot : OwnerSlot} {d : ClientRef}, (slot.without d).unconfirmed = some c → slot.unconfirmed = some c := by
    intro slot d hslot
    simp only [OwnerSlot.without] at hslot
    split at hslot
    · exact absurd hslot (by simp)
    · exact hslot
  have hset : ∀ {u : Tables} {o' : Bytes} {slot : OwnerSlot}, u.byOwner = t.byOwner →
      (slot.unconfirmed = some c → (t.byOwner o').unconfirmed = some c) →
      ((u.setSlot o' slot).byOwner o).unconfirmed = some c → (t.byOwner o).unconfirmed = some c := by
    intro u o' slot hu hslot hc
    simp only [setSlot, update_apply, hu] at hc
    split at hc
    · rename_i ho
      rw [ho]
      exact hslot hc
    · exact hc
  cases hc with
  | @exchangeFull args slot u hu =>
    refine Or.inr ⟨hset (by rw [Wf.byOwner_dropUnconfirmed, byOwner_vacated hu]) (fun hnew => ?_) h, by simp⟩
    exact absurd hnew (by simp)
  | @exchangeNew args slot u hu =>
    simp only [addClient, update_apply] at h ⊢
    split at h
    · obtain rfl := Option.some.inj h
      exact Or.inl (by simp)
    · rw [Wf.byOwner_dropUnconfirmed, byOwner_vacated hu] at h
      exact Or.inr ⟨h, by simp⟩
  | createAgain hconf =>
    refine Or.inr ⟨h, fun args heq => ?_⟩
    obtain ⟨rfl, -⟩ := Frame.createClient.inj heq
    simp [addSession, setClient]
  | createRefused => exact Or.inr ⟨h, fun _ _ => rfl⟩
  | @createFirst d =>
    have hkeep : (t.retireOld cfg d).byOwner = t.byOwner := by
      unfold retireOld
      split <;> rfl
    have hslot : ((((t.retireOld cfg d).setSlot (t.clients d).ownerId _).byOwner o).unconfirmed = some c) := h
    have hne : c ≠ d := by
      rintro rfl
      simp only [setSlot, update_apply, hkeep] at hslot
      split at hslot
      · simp at hslot
      · rename_i ho
        exact ho (hwf.unconfirmed o c hslot).2.symm
    refine Or.inr ⟨hset hkeep (fun hnew => ?_) hslot, fun args heq => ?_⟩
    · split at hnew
      · exact absurd hnew (by simp)
      · exact hnew
    · exact absurd (Frame.createClient.inj heq).1.symm hne
  | @destroyClient d | @scanLapsed _ d =>
    refine Or.inr ⟨hset (byOwner_unpersist t d) (fun hnew => ?_) h, by simp⟩
    rw [byOwner_unpersist] at hnew
    exact hwithout hnew
  | @expire d => exact Or.inr ⟨hset rfl hwithout h, by simp⟩
  | @unpersist d =>
    rw [byOwner_unpersist] at h
    exact Or.inr ⟨h, by simp⟩
  | @dropFromFile r =>
    obtain ⟨files, heq⟩ := t.dropFromFile_eq r
    rw [heq] at h
    exact Or.inr ⟨h, by simp⟩
  | quiet hf =>
    refine Or.inr ⟨h, ?_⟩
    rintro args rfl
    exact hf.elim
  | insert hf => exact Or.inr ⟨h, by cases hf <;> simp⟩
  | track hf | trackRefused hf => exact Or.inr ⟨h, by cases hf <;> simp⟩
  | _ => exact Or.inr ⟨h, by simp⟩

theorem FreshSlots.change (h : t.FreshSlots) (hwf : t.Wf cfg) (hf : f.Wf t) (hc : Change cfg t f t') :
    t'.FreshSlots := by
  intro o c hslot
  rcases unconfirmed_change hwf hc hslot with hnew | ⟨hold, hnot⟩
  · exact hnew
  · have hfalse : (t.clients c).confirmed = false := h o c hold
    have hstep := clientStep_change hf hc (hwf.unconfirmed o c hold).1
    generalize t'.clients c = v at hstep hnot ⊢
    cases hstep with
    | session => exact (hnot _ rfl).trans hfalse
    | _ => exact hfalse

end Tables

theorem Shared.tears_down {cfg : Config} {s : Shared} {input : Input} {f : Frame} {c : ClientRef}
    (hl : s.tables.Leaves (s.exec cfg input f).1.tables c f) (hreg : s.tables.Registered cfg c)
    (hgone : ¬(s.exec cfg input f).1.tables.Registered cfg c) (hconf : (s.tables.clients c).confirmed = true) :
    (∀ id ∈ (s.tables.clients c).sessions, Frame.eraseSession id ∈ (s.exec cfg input f).2) ∧
      ∀ other ∈ (s.tables.clients c).states, Frame.reapState other ∈ (s.exec cfg input f).2 := by
  cases hl with
  | idle hf hsessions hstates =>
    rw [hsessions hconf, hstates hconf]
    exact ⟨List.forall_mem_nil _, List.forall_mem_nil _⟩
  | expired =>
    simp only [exec, expireSection] at hgone ⊢
    split at hgone
    · exact absurd hreg hgone
    · rename_i hdue
      rw [if_neg hdue]
      refine ⟨fun id hid => ?_, fun other hother => ?_⟩
      · have hid' : id ∈ (s.clients c).sessions := hid
        simp [hid']
      · have hother' : other ∈ (s.clients c).states := hother
        simp [hother']
  | @replaced d args hold hnew hseq =>
    have hnew' : (s.clients d).confirmed = false := hnew
    simp only [exec, createClient, hnew'] at hgone ⊢
    split at hgone
    · exact absurd hreg hgone
    · rename_i hprincipal
      have hold' : s.oldIncarnation d = some c := hold
      have hseq' : args.sequence = (s.clients d).csSequence := hseq
      rw [if_neg hprincipal]
      simp only [hseq', hold', acceptedFrames, Option.elim_some]
      refine ⟨fun id hid => ?_, fun other hother => ?_⟩
      · have hid' : id ∈ (s.clients c).sessions := hid
        simp [hid']
      · have hother' : other ∈ (s.clients c).states := hother
        simp [hother']

theorem Shared.findClient_of_registered {cfg : Config} {s : Shared} (hi : s.tables.Indexed cfg) {c : ClientRef} (hc : c < s.clientRefs)
    (hreg : s.tables.Registered cfg c) : s.findClient cfg (s.clients c).clientid = some c := by
  obtain ⟨k, hk, -⟩ := hi.minted c hc
  have hid : (s.clients c).clientid = clientidOf cfg k := hk
  have hepoch : (s.clients c).clientid >>> 32 = cfg.bootEpoch := by rw [hid, clientidOf_epoch]
  rw [findClient, if_neg (not_not.mpr hepoch)]
  exact (hi.idx c hc).mpr hreg

/-- One step as the tables see it. -/
structure Step (cfg : Config) (t : Tables) (f : Frame) (t' : Tables) (next : List Frame) : Prop where
  change : Change cfg t f t'
  flow : Flow cfg t t' f next
  must : ∀ g, Must cfg t t' f g → g ∈ next
  tearsDown : ∀ c, t.Leaves t' c f → t.Registered cfg c → ¬t'.Registered cfg c → (t.clients c).confirmed = true →
    (∀ id ∈ (t.clients c).sessions, Frame.eraseSession id ∈ next) ∧
      ∀ other ∈ (t.clients c).states, Frame.reapState other ∈ next

theorem Shared.exec_step (s : Shared) (cfg : Config) (input : Input) (f : Frame) :
    Step cfg s.tables f (s.exec cfg input f).1.tables (s.exec cfg input f).2 where
  change := s.exec_change cfg input f
  flow := s.exec_flow cfg input f
  must _ hg := s.exec_must cfg input hg
  tearsDown _ hl hreg hgone hconf := tears_down hl hreg hgone hconf

end LightNfs
