import LightNfs.State.Registry

/-!
# The owner table

Each owner has a slot with at most one confirmed and one unconfirmed record. CREATE_SESSION finds its client
without the owner's lock; as long as the record is still registered when the lock is taken, the slots list
exactly the registered records.
-/

namespace LightNfs

open Function

namespace Tables

/-- The slots and the client table list the same records. -/
structure Slots (cfg : Config) (t : Tables) : Prop where
  confirmed : ∀ o c, (t.byOwner o).confirmed = some c → t.Registered cfg c
  unconfirmed : ∀ o c, (t.byOwner o).unconfirmed = some c → t.Registered cfg c ∧ (t.clients c).confirmed = false
  lists : ∀ c < t.clientRefs, t.Registered cfg c → (t.clients c).confirmed = true →
    (t.byOwner (t.clients c).ownerId).confirmed = some c
  listsNew : ∀ c < t.clientRefs, t.Registered cfg c → (t.clients c).confirmed = false →
    (t.byOwner (t.clients c).ownerId).unconfirmed = some c

variable {cfg : Config} {t t' : Tables}
variable {c : ClientRef} {o : Bytes}

theorem Slots.boot (cfg : Config) : LightNfs.boot.state.tables.Slots cfg where
  confirmed _ _ h := absurd h (by simp [Machine.start, Shared.tables])
  unconfirmed _ _ h := absurd h (by simp [Machine.start, Shared.tables])
  lists c hc := absurd hc (Nat.not_lt_zero c)
  listsNew c hc := absurd hc (Nat.not_lt_zero c)

theorem Slots.same (h : t.Slots cfg) (hids : t.SameIds t') (hbyId : t'.byId = t.byId) (howner : t'.byOwner = t.byOwner)
    (hconf : ∀ c, (t'.clients c).confirmed = (t.clients c).confirmed) : t'.Slots cfg := by
  have hreg : ∀ c, t'.Registered cfg c ↔ t.Registered cfg c := by
    intro c
    rw [Registered, Registered, hids.idKey, hbyId]
  refine ⟨fun o c hc => ?_, fun o c hc => ?_, fun c hc hr hf => ?_, fun c hc hr hf => ?_⟩
  · rw [howner] at hc
    exact (hreg c).mpr (h.confirmed o c hc)
  · rw [howner] at hc
    rw [hreg, hconf]
    exact h.unconfirmed o c hc
  · rw [hids.clientRefs] at hc
    rw [howner, hids.ownerId]
    exact h.lists c hc ((hreg c).mp hr) ((hconf c).symm.trans hf)
  · rw [hids.clientRefs] at hc
    rw [howner, hids.ownerId]
    exact h.listsNew c hc ((hreg c).mp hr) ((hconf c).symm.trans hf)

theorem Slots.drop (h : t.Slots cfg) (hwf : t.Wf cfg) (hids : t.SameIds t')
    (hreg : ∀ d < t.clientRefs, t'.Registered cfg d ↔ t.Registered cfg d ∧ d ≠ c)
    (hconf : ∀ d, (t'.clients d).confirmed = (t.clients d).confirmed)
    (hslot : t'.byOwner = update t.byOwner (t.clients c).ownerId
      ((t.byOwner (t.clients c).ownerId).without c)) : t'.Slots cfg := by
  have hat : ∀ o, t'.byOwner o = if o = (t.clients c).ownerId then (t.byOwner o).without c else t.byOwner o := by
    intro o
    rw [hslot, update_apply]
    split
    · rename_i ho
      rw [ho]
    · rfl
  have hkeepConf : ∀ o d, d ≠ c → (t.byOwner o).confirmed = some d → (t'.byOwner o).confirmed = some d := by
    intro o d hne hd
    rw [hat]
    split
    · simp [OwnerSlot.without, hd, hne]
    · exact hd
  have hkeepNew : ∀ o d, d ≠ c → (t.byOwner o).unconfirmed = some d → (t'.byOwner o).unconfirmed = some d := by
    intro o d hne hd
    rw [hat]
    split
    · simp [OwnerSlot.without, hd, hne]
    · exact hd
  refine ⟨fun o d hd => ?_, fun o d hd => ?_, fun d hd hr hf => ?_, fun d hd hr hf => ?_⟩
  · rw [hat] at hd
    split at hd
    · simp only [OwnerSlot.without] at hd
      split at hd
      · exact absurd hd (by simp)
      · rename_i hne
        exact (hreg d (hwf.confirmed _ d hd).1).mpr ⟨h.confirmed _ d hd, fun heq => hne (heq ▸ hd)⟩
    · rename_i ho
      obtain ⟨hlt, hown, -⟩ := hwf.confirmed o d hd
      exact (hreg d hlt).mpr ⟨h.confirmed o d hd, fun heq => ho (heq ▸ hown.symm)⟩
  · rw [hat] at hd
    split at hd
    · simp only [OwnerSlot.without] at hd
      split at hd
      · exact absurd hd (by simp)
      · rename_i hne
        obtain ⟨hr, hf⟩ := h.unconfirmed _ d hd
        exact ⟨(hreg d (hwf.unconfirmed _ d hd).1).mpr ⟨hr, fun heq => hne (heq ▸ hd)⟩, (hconf d).trans hf⟩
    · rename_i ho
      obtain ⟨hlt, hown⟩ := hwf.unconfirmed o d hd
      obtain ⟨hr, hf⟩ := h.unconfirmed o d hd
      exact ⟨(hreg d hlt).mpr ⟨hr, fun heq => ho (heq ▸ hown.symm)⟩, (hconf d).trans hf⟩
  · rw [hids.clientRefs] at hd
    obtain ⟨hr, hne⟩ := (hreg d hd).mp hr
    rw [hids.ownerId]
    exact hkeepConf _ d hne (h.lists d hd hr ((hconf d).symm.trans hf))
  · rw [hids.clientRefs] at hd
    obtain ⟨hr, hne⟩ := (hreg d hd).mp hr
    rw [hids.ownerId]
    exact hkeepNew _ d hne (h.listsNew d hd hr ((hconf d).symm.trans hf))

/-! ### Records that make room -/

theorem confirmed_unpersist (t : Tables) (c d : ClientRef) :
    ((t.unpersist cfg c).clients d).confirmed = (t.clients d).confirmed := by
  unfold unpersist
  split
  · simp only [setClient, update_apply]
    split
    · rename_i h
      rw [h]
    · rfl
  · rfl

theorem confirmed_retire (t : Tables) (c d : ClientRef) :
    ((t.retire c).clients d).confirmed = (t.clients d).confirmed := by
  simp only [retire, setClient, update_apply]
  split
  · rename_i h
    rw [h]
  · rfl

theorem Slots.remove (h : t.Slots cfg) (hi : t.Indexed cfg) (hwf : t.Wf cfg) (hc : c < t.clientRefs) :
    (t.remove cfg c).Slots cfg := by
  have hids : t.SameIds ((t.unpersist cfg c).clearSlot c) :=
    (SameIds.unpersist cfg t c).trans ⟨rfl, rfl, fun _ => rfl, fun _ => rfl⟩
  refine h.drop hwf (hids.trans ⟨rfl, rfl, fun _ => rfl, fun _ => rfl⟩)
    (fun d hd => registered_unindex hi hids (byId_unpersist t c) hc hd) (confirmed_unpersist t c) ?_
  show update (t.unpersist cfg c).byOwner _ _ = _
  rw [byOwner_unpersist, (SameIds.unpersist cfg t c).ownerId]

theorem Slots.expire (h : t.Slots cfg) (hi : t.Indexed cfg) (hwf : t.Wf cfg) (hc : c < t.clientRefs) :
    (((t.retire c).clearSlot c).unindex cfg c).Slots cfg := by
  have hretire : t.SameIds (t.retire c) := SameIds.setClient rfl rfl
  have hids : t.SameIds ((t.retire c).clearSlot c) := hretire.trans ⟨rfl, rfl, fun _ => rfl, fun _ => rfl⟩
  refine h.drop hwf (hids.trans ⟨rfl, rfl, fun _ => rfl, fun _ => rfl⟩)
    (fun d hd => registered_unindex hi hids rfl hc hd) (confirmed_retire t c) ?_
  show update t.byOwner _ _ = _
  rw [hretire.ownerId]
  rfl

theorem Slots.unconfirmed_ne (h : t.Slots cfg) (hwf : t.Wf cfg)
    (hc : (t.byOwner o).confirmed = some c) : (t.byOwner o).unconfirmed ≠ some c := by
  intro hc'
  have hfalse := (h.unconfirmed o c hc').2
  rw [(hwf.confirmed o c hc).2.2] at hfalse
  exact absurd hfalse (by simp)

theorem Slots.vacated (h : t.Slots cfg) (hi : t.Indexed cfg) (hwf : t.Wf cfg) {slot : OwnerSlot} {u : Tables}
    (hu : t.Vacated cfg o slot u) : (u.setSlot o slot).Slots cfg := by
  cases hu with
  | same => exact h.same ⟨rfl, rfl, fun _ => rfl, fun _ => rfl⟩ rfl (update_eq_self o _) fun _ => rfl
  | @evicted c hconf =>
    obtain ⟨hlt, hown, -⟩ := hwf.confirmed o c hconf
    have hids := SameIds.unpersist cfg t c
    refine h.drop (c := c) hwf (hids.trans ⟨rfl, rfl, fun _ => rfl, fun _ => rfl⟩) (fun d hd => ?_)
      (confirmed_unpersist t c) ?_
    · exact registered_unindex hi hids (byId_unpersist t c) hlt hd
    · have hslot : (t.byOwner o).without c = { t.byOwner o with confirmed := none } := by
        simp [OwnerSlot.without, hconf, h.unconfirmed_ne hwf hconf]
      show update (t.unpersist cfg c).byOwner _ _ = _
      rw [byOwner_unpersist, hown, hslot]

theorem Slots.dropUnconfirmed (hi : t.Indexed cfg) {slot : OwnerSlot}
    (h : (t.setSlot o slot).Slots cfg) (hwf : (t.setSlot o slot).Wf cfg) :
    ((t.dropUnconfirmed cfg slot).setSlot o { slot with unconfirmed := none }).Slots cfg := by
  have hat : (t.setSlot o slot).byOwner o = slot := by simp [setSlot]
  have hsetIds : (t.setSlot o slot).SameIds t := ⟨rfl, rfl, fun _ => rfl, fun _ => rfl⟩
  have hsetIndexed : (t.setSlot o slot).Indexed cfg :=
    hi.same ⟨rfl, rfl, fun _ => rfl, fun _ => rfl⟩ rfl rfl fun _ hd => hd
  cases hnew : slot.unconfirmed with
  | none =>
    have hslot : { slot with unconfirmed := none } = slot := by
      rw [← hnew]
    simp only [Tables.dropUnconfirmed, hnew, hslot]
    exact h
  | some c =>
    obtain ⟨hlt, hown⟩ := hwf.unconfirmed o c (hat.symm ▸ hnew)
    simp only [Tables.dropUnconfirmed, hnew]
    refine h.drop (c := c) hwf ⟨rfl, rfl, fun _ => rfl, fun _ => rfl⟩ (fun d hd => ?_) (fun _ => rfl) ?_
    · exact registered_unindex hsetIndexed hsetIds rfl hlt hd
    · have hne : slot.confirmed ≠ some c := by
        intro hc
        refine h.unconfirmed_ne hwf (o := o) (c := c) ?_ ?_
        · rw [hat, hc]
        · rw [hat, hnew]
      have hslot : slot.without c = { slot with unconfirmed := none } := by simp [OwnerSlot.without, hnew, hne]
      rw [hown, hat, hslot]
      show update t.byOwner o _ = update (update t.byOwner o slot) o _
      rw [update_idem]

/-! ### Records that come in or are confirmed -/

theorem Slots.addClient (hi : t.Indexed cfg) (hwf : t.Wf cfg) (hnext : t.nextClient ≠ 0) {args : ExchangeArgs}
    {slot : OwnerSlot} (h : (t.setSlot args.ownerId { slot with unconfirmed := none }).Slots cfg) :
    (t.addClient cfg args slot).Slots cfg := by
  have hconf : ∀ o, ((t.addClient cfg args slot).byOwner o).confirmed =
      ((t.setSlot args.ownerId { slot with unconfirmed := none }).byOwner o).confirmed := by
    intro o
    simp only [Tables.addClient, setSlot, update_apply]
    split <;> rfl
  have hrest : ∀ o, o ≠ args.ownerId → (t.addClient cfg args slot).byOwner o =
      (t.setSlot args.ownerId { slot with unconfirmed := none }).byOwner o := by
    intro o ho
    simp [Tables.addClient, setSlot, ho]
  have hat : ((t.addClient cfg args slot).byOwner args.ownerId).unconfirmed = some t.clientRefs := by
    simp [Tables.addClient]
  have hfree : ((t.setSlot args.ownerId { slot with unconfirmed := none }).byOwner args.ownerId).unconfirmed = none := by
    simp [setSlot]
  have hnew : ((t.addClient cfg args slot).clients t.clientRefs).confirmed = false := by simp [Tables.addClient]
  have howner : ((t.addClient cfg args slot).clients t.clientRefs).ownerId = args.ownerId := by simp [Tables.addClient]
  have hreg : ∀ {c}, c < t.clientRefs → ((t.addClient cfg args slot).Registered cfg c ↔ t.Registered cfg c) :=
    fun hc => registered_addClient hi hnext hc
  have hlt : ∀ {c}, t.Registered cfg c → c < t.clientRefs := fun hc => (hwf.ids _ _ hc).1
  have hcases : ∀ c, c < (t.addClient cfg args slot).clientRefs → c < t.clientRefs ∨ c = t.clientRefs :=
    fun c hc => Nat.lt_succ_iff_lt_or_eq.mp hc
  refine ⟨fun o c hc => ?_, fun o c hc => ?_, fun c hc hr hf => ?_, fun c hc hr hf => ?_⟩
  · have hr : t.Registered cfg c := h.confirmed o c ((hconf o).symm.trans hc)
    exact (hreg (hlt hr)).mpr hr
  · by_cases ho : o = args.ownerId
    · rw [ho, hat] at hc
      obtain rfl := Option.some.inj hc
      exact ⟨registered_new t args slot, hnew⟩
    · rw [hrest o ho] at hc
      obtain ⟨hr, hf⟩ := h.unconfirmed o c hc
      have hr' : t.Registered cfg c := hr
      rw [hreg (hlt hr'), clients_addClient (hlt hr')]
      exact ⟨hr', hf⟩
  · rcases hcases c hc with hc | rfl
    · rw [hreg hc] at hr
      rw [clients_addClient hc] at hf ⊢
      exact (hconf _).trans (h.lists c hc hr hf)
    · rw [hnew] at hf
      exact absurd hf (by simp)
  · rcases hcases c hc with hc | rfl
    · rw [hreg hc] at hr
      rw [clients_addClient hc] at hf ⊢
      have hlisted : ((t.setSlot args.ownerId _).byOwner (t.clients c).ownerId).unconfirmed = some c :=
        h.listsNew c hc hr hf
      by_cases ho : (t.clients c).ownerId = args.ownerId
      · rw [ho, hfree] at hlisted
        exact absurd hlisted (by simp)
      · rw [hrest _ ho]
        exact hlisted
    · rw [howner]
      exact hat

theorem Slots.promote (h : t.Slots cfg) (hwf : t.Wf cfg) (hc : c < t.clientRefs)
    (hreg : t.Registered cfg c) (hnew : (t.clients c).confirmed = false)
    (hfree : (t.byOwner (t.clients c).ownerId).confirmed = none) (hids : t.SameIds t') (hbyId : t'.byId = t.byId)
    (hslot : t'.byOwner = update t.byOwner (t.clients c).ownerId { confirmed := some c, unconfirmed := none })
    (hconf : ∀ d, (t'.clients d).confirmed = if d = c then true else (t.clients d).confirmed) : t'.Slots cfg := by
  have hr' : ∀ d, t'.Registered cfg d ↔ t.Registered cfg d := by
    intro d
    rw [Registered, Registered, hids.idKey, hbyId]
  have hat : ∀ o, t'.byOwner o =
      if o = (t.clients c).ownerId then { confirmed := some c, unconfirmed := none } else t.byOwner o := by
    intro o
    rw [hslot, update_apply]
  refine ⟨fun o d hd => ?_, fun o d hd => ?_, fun d hd hr hf => ?_, fun d hd hr hf => ?_⟩
  · rw [hat] at hd
    split at hd
    · obtain rfl := Option.some.inj hd
      exact (hr' c).mpr hreg
    · exact (hr' d).mpr (h.confirmed o d hd)
  · rw [hat] at hd
    split at hd
    · exact absurd hd (by simp)
    · rename_i ho
      have hne : d ≠ c := fun heq => ho (heq ▸ (hwf.unconfirmed o d hd).2.symm)
      rw [hr', hconf, if_neg hne]
      exact h.unconfirmed o d hd
  · rw [hids.clientRefs] at hd
    rw [hids.ownerId, hat]
    split
    · rename_i ho
      by_cases hdc : d = c
      · rw [hdc]
      · rw [hconf, if_neg hdc] at hf
        have hlisted := h.lists d hd ((hr' d).mp hr) hf
        rw [ho, hfree] at hlisted
        exact absurd hlisted (by simp)
    · rename_i ho
      have hdc : d ≠ c := fun heq => ho (by rw [heq])
      rw [hconf, if_neg hdc] at hf
      exact h.lists d hd ((hr' d).mp hr) hf
  · rw [hids.clientRefs] at hd
    have hdc : d ≠ c := fun heq => by simp [hconf, heq] at hf
    rw [hconf, if_neg hdc] at hf
    have hlisted := h.listsNew d hd ((hr' d).mp hr) hf
    rw [hids.ownerId, hat]
    split
    · rename_i ho
      rw [ho, h.listsNew c hc hreg hnew] at hlisted
      exact absurd (Option.some.inj hlisted).symm hdc
    · exact hlisted

theorem Slots.confirmIncarnation (h : t.Slots cfg) (hi : t.Indexed cfg) (hwf : t.Wf cfg)
    (hc : c < t.clientRefs) (hreg : t.Registered cfg c) (hnew : (t.clients c).confirmed = false) :
    (t.confirmIncarnation cfg c).Slots cfg := by
  have hmine : (t.byOwner (t.clients c).ownerId).unconfirmed = some c := h.listsNew c hc hreg hnew
  have hslot : (t.confirmIncarnation cfg c).byOwner =
      update t.byOwner (t.clients c).ownerId { confirmed := some c, unconfirmed := none } := by
    have hkeep : (t.retireOld cfg c).byOwner = t.byOwner := by
      unfold retireOld
      split <;> rfl
    show update (t.retireOld cfg c).byOwner _ _ = _
    rw [hkeep, if_pos hmine]
  have hconf : ∀ d, ((t.confirmIncarnation cfg c).clients d).confirmed =
      if d = c then true else ((t.retireOld cfg c).clients d).confirmed := by
    intro d
    simp only [Tables.confirmIncarnation, setClient, setSlot, update_apply]
    split <;> rfl
  have hids := SameIds.promoted cfg t c
  have hbyId : (t.confirmIncarnation cfg c).byId = (t.retireOld cfg c).byId := rfl
  have hnotMine : (t.byOwner (t.clients c).ownerId).confirmed ≠ some c := by
    intro heq
    rw [(hwf.confirmed _ c heq).2.2] at hnew
    exact absurd hnew (by simp)
  cases hold : t.oldIncarnation c with
  | none =>
    have hsame : t.retireOld cfg c = t := by simp only [retireOld, hold]
    rw [hsame] at hids hconf hbyId
    refine h.promote hwf hc hreg hnew ?_ hids hbyId hslot hconf
    cases hfree : (t.byOwner (t.clients c).ownerId).confirmed with
    | none => rfl
    | some d =>
      rw [hfree] at hnotMine
      have hd : d ≠ c := fun heq => hnotMine (by rw [heq])
      simp [oldIncarnation, hfree, hd] at hold
  | some old =>
    -- the old incarnation leaves first, then the place is taken
    have hwas : (t.byOwner (t.clients c).ownerId).confirmed = some old := (Option.filter_eq_some_iff.mp hold).1
    obtain ⟨hlt, hown, -⟩ := hwf.confirmed _ old hwas
    have hne : c ≠ old := fun heq => hnotMine (heq ▸ hwas)
    have hretire : t.SameIds (t.retire old) := SameIds.setClient rfl rfl
    have hsame : t.retireOld cfg c = (t.retire old).unindex cfg old := by simp only [retireOld, hold]
    rw [hsame] at hids hconf hbyId
    have hdropped : (((t.retire old).clearSlot old).unindex cfg old).Slots cfg := h.expire hi hwf hlt
    have hslotOld : (((t.retire old).clearSlot old).unindex cfg old).byOwner =
        update t.byOwner (t.clients c).ownerId ((t.byOwner (t.clients c).ownerId).without old) := by
      show update t.byOwner _ _ = _
      rw [hretire.ownerId, hown]
      rfl
    have hidsOld : t.SameIds ((t.retire old).clearSlot old) := hretire.trans ⟨rfl, rfl, fun _ => rfl, fun _ => rfl⟩
    have hwfOld : (((t.retire old).clearSlot old).unindex cfg old).Wf cfg :=
      hwf.shrink ((Extends.retire old).trans (Extends.of_heaps rfl rfl rfl rfl))
        (((Shrinks.setClient _ _).trans (Shrinks.clearSlot _)).trans (Shrinks.unindex cfg _))
    have hunindex : (((t.retire old).clearSlot old).unindex cfg old).SameIds ((t.retire old).unindex cfg old) :=
      ⟨rfl, rfl, fun _ => rfl, fun _ => rfl⟩
    refine hdropped.promote hwfOld (c := c) hc ?_ ?_ ?_ (hunindex.trans hids) hbyId ?_ hconf
    · exact (registered_unindex hi hidsOld rfl hlt hc).mpr ⟨hreg, hne⟩
    · exact (confirmed_retire t old c).trans hnew
    · show ((((t.retire old).clearSlot old).unindex cfg old).byOwner ((t.retire old).clients c).ownerId).confirmed = none
      rw [hretire.ownerId, hslotOld, update_self]
      simp [OwnerSlot.without, hwas]
    · show _ = update _ ((t.retire old).clients c).ownerId _
      rw [hslot, hslotOld, hretire.ownerId, update_idem]

/-! ### Every frame -/

/-- A CREATE_SESSION in sequence finds its client still in the table. -/
def ClientStays (cfg : Config) (t : Tables) : Frame → Prop
  | .createClient c args => args.sequence = (t.clients c).csSequence → t.Registered cfg c
  | _ => True

theorem Slots.change (h : t.Slots cfg) (hi : t.Indexed cfg) (hwf : t.Wf cfg) {f : Frame} (hf : f.Wf t)
    (hids : t.ClientIdsLeft f) (hstays : t.ClientStays cfg f) (hc : Change cfg t f t') : t'.Slots cfg := by
  have hset : ∀ {u : Tables} {c : ClientRef} {v : ClientView}, u.Slots cfg →
      v.clientid = (u.clients c).clientid → v.ownerId = (u.clients c).ownerId →
      v.confirmed = (u.clients c).confirmed → (u.setClient c v).Slots cfg := by
    intro u c v hu hid hown hconf
    refine hu.same (SameIds.setClient hid hown) rfl rfl fun d => ?_
    simp only [setClient, update_apply]
    split
    · rename_i hd
      rw [hconf, hd]
    · rfl
  have hexchange : ∀ {o : Bytes} {slot : OwnerSlot} {u : Tables}, t.Vacated cfg o slot u →
      ((u.dropUnconfirmed cfg slot).setSlot o { slot with unconfirmed := none }).Slots cfg := by
    intro o slot u hu
    refine Slots.dropUnconfirmed (hi.vacated hwf hu) (h.vacated hi hwf hu) ?_
    refine (hwf.vacated hu).shrink (Extends.of_heaps rfl rfl rfl rfl) (Shrinks.setSlot (fun c hc => ?_) fun c hc => ?_)
    · exact (hwf.confirmed_of_vacated hu hc).1
    · rw [byOwner_vacated hu]
      exact (unconfirmed_of_vacated hwf hu hc).1
  cases hc with
  | exchangeFull hu => exact hexchange hu
  | exchangeNew hu =>
    have hdrop := (hi.vacated hwf hu).dropUnconfirmed fun c hc => (unconfirmed_of_vacated hwf hu hc).2
    refine Slots.addClient hdrop ?_ ?_ (hexchange hu)
    · exact (hwf.vacated hu).shrink (Extends.dropUnconfirmed cfg _) (Shrinks.dropUnconfirmed cfg _)
    · rw [(SameIds.dropUnconfirmed cfg _ _).nextClient, (SameIds.vacated hu).nextClient]
      exact hids
  | createAgain => exact hset (h.same ⟨rfl, rfl, fun _ => rfl, fun _ => rfl⟩ rfl rfl fun _ => rfl) rfl rfl rfl
  | createFirst hconf hseq =>
    have hconfirmed := h.confirmIncarnation hi hwf hf.1 (hstays hseq) hconf
    exact hset (hconfirmed.same ⟨rfl, rfl, fun _ => rfl, fun _ => rfl⟩ rfl rfl fun _ => rfl) rfl rfl rfl
  | cacheReply | dropSession | track | untrack => exact hset h rfl rfl rfl
  | destroyClient | scanLapsed => exact h.remove hi hwf hf.1
  | expire => exact h.expire hi hwf hf.1
  | unpersist =>
    exact h.same (SameIds.unpersist cfg t _) (byId_unpersist t _) (byOwner_unpersist t _) (confirmed_unpersist t _)
  | @dropFromFile r =>
    obtain ⟨files, heq⟩ := t.dropFromFile_eq r
    rw [heq]
    exact h.same ⟨rfl, rfl, fun _ => rfl, fun _ => rfl⟩ rfl rfl fun _ => rfl
  | _ => exact h.same ⟨rfl, rfl, fun _ => rfl, fun _ => rfl⟩ rfl rfl fun _ => rfl

end Tables

end LightNfs
