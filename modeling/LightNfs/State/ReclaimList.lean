import LightNfs.State.Details
import LightNfs.State.Owners

/-!
# The global reclaim list

With one list for all exports, an owner is on it from the first CREATE_SESSION of its client until the client
is dropped. The list is keyed by owner while an owner may have an unconfirmed record beside its confirmed one,
and dropping either takes the owner off. Requests run one after the other here, so what matters is the order
of the frames on the one stack: a request that has still to settle the list only tidies up before it does.
-/

namespace LightNfs

open Function

namespace Frame

/-- The sections that bring the list and the client tables together again. -/
def Lists : Frame → Prop
  | confirmCreateSession _ _ | confirmClient _ _ _ | persistClient _ | unpersistClient _ => True
  | _ => False

/-- What a request does once its decision about the client has been taken. -/
def Tidies : Frame → Prop
  | createInsert _ _ | eraseSession _ | reapState _ | unlinkState _ _ _ | unlinkFile _ _ _ | unlinkLocks _
  | unlinkDeleg _ | untrackState _ _ | unpersistFsClient _ _ | confirmCreateSession _ _ | confirmClient _ _ _
  | persistClient _ | unpersistClient _ | forgetLockOwners _ | reply _ => True
  | _ => False

/-- The sections that take it. -/
def Decides : Frame → Prop
  | createClient _ _ | expireSection _ _ _ => True
  | _ => False

/-- CREATE_SESSION up to that point. -/
def Creates : Frame → Prop
  | createSession _ | createClient _ _ => True
  | _ => False

/-- Updates of the lists of single exports. -/
def PerExport : Frame → Prop
  | persistFsClient _ _ | unpersistFsClient _ _ => True
  | _ => False

theorem Lists.tidies {f : Frame} (h : f.Lists) : f.Tidies := by
  cases f <;> first | exact trivial | exact h.elim

theorem Request.not_lists {f : Frame} (h : f.Request) : ¬f.Lists := by
  cases f <;> first | exact id | exact h.elim

theorem Request.not_perExport {f : Frame} (h : f.Request) : ¬f.PerExport := by
  cases f <;> first | exact id | exact h.elim

end Frame

namespace Follows

variable {cfg : Config} {t u : Tables} {f g : Frame}

theorem tidies (h : Follows cfg t u f g) (hf : f.Tidies ∨ f.Decides) : g.Tidies := by
  cases h with
  | reply => trivial
  | trackUndo hor | trackPersist hor | lockFirst hor =>
    rcases hor with rfl | rfl
    · exact hf.elim False.elim False.elim
    · exact hf.elim False.elim False.elim
  | _ => first | trivial | exact hf.elim False.elim False.elim

theorem lists (h : Follows cfg t u f g) (hg : g.Lists) : f.Tidies ∨ f.Decides := by
  cases h with
  | createConfirm | expireUnpersist => exact Or.inr trivial
  | confirmClient | persistClient => exact Or.inl trivial
  | _ => exact hg.elim

theorem creates (h : Follows cfg t u f g) (hg : g.Creates) : f.Creates := by
  cases h with
  | createClient => trivial
  | _ => exact hg.elim

theorem perExport (h : Follows cfg t u f g) (hg : g.PerExport) : cfg.perFsidReclaim = true := by
  cases h with
  | unpersistFs hper | trackPersist _ hper | grantPersist hper => exact hper
  | _ => exact hg.elim

end Follows

/-! ### The tables while a request tidies up -/

variable {t t' : Tables} {cfg : Config} {d d' : Details} {f : Frame} {s : Shared} {o : Bytes} {c : ClientRef}

theorem Change.tidies (h : Change cfg t f t') (hf : f.Tidies) :
    t.SameIds t' ∧ t'.byId = t.byId ∧ t'.byOwner = t.byOwner := by
  cases h with
  | quiet | confirmRefused | unlinkAgain => exact ⟨.refl t, rfl, rfl⟩
  | insertSession | eraseSession | forgetLockOwners | close | releaseLocks =>
    exact ⟨⟨rfl, rfl, fun _ => rfl, fun _ => rfl⟩, rfl, rfl⟩
  | cacheReply | untrack => exact ⟨.setClient rfl rfl, rfl, rfl⟩
  | unpersist => exact ⟨.unpersist cfg t _, Tables.byId_unpersist t _, Tables.byOwner_unpersist t _⟩
  | @dropFromFile r =>
    obtain ⟨files, heq⟩ := t.dropFromFile_eq r
    rw [heq]
    exact ⟨⟨rfl, rfl, fun _ => rfl, fun _ => rfl⟩, rfl, rfl⟩
  | insert hins => cases hins <;> exact hf.elim
  | trackRefused htrack | track htrack => cases htrack <;> exact hf.elim
  | _ => exact hf.elim

theorem Change.byOwner_of_plain (h : Change cfg t f t') (hf : f.Plain) :
    t'.byOwner = t.byOwner := by
  cases h with
  | @dropFromFile r =>
    obtain ⟨files, heq⟩ := t.dropFromFile_eq r
    rw [heq]
  | _ => first | rfl | exact hf.elim

/-! ### The list and the confirmed clients -/

/-- The owner is listed exactly if it has a confirmed client whose `confirm_create_session` has run. -/
def Tables.Settled (t : Tables) (d : Details) (o : Bytes) : Prop :=
  o ∈ d.stable 0 ↔ ∃ c, (t.byOwner o).confirmed = some c ∧ d.persisted c = true

theorem Tables.settled_congr (hstable : o ∈ d'.stable 0 ↔ o ∈ d.stable 0)
    (hslot : (t'.byOwner o).confirmed = (t.byOwner o).confirmed)
    (hpersisted : ∀ c, (t.byOwner o).confirmed = some c → d'.persisted c = d.persisted c) (h : t.Settled d o) :
    t'.Settled d' o := by
  rw [Settled, hstable, hslot]
  refine h.trans (exists_congr fun c => and_congr_right fun hc => ?_)
  rw [hpersisted c hc]

/-- The record about to be dropped is a confirmed one, or its owner has none. -/
def Shared.DropsConfirmed (s : Shared) : Frame → Prop
  | .destroyClient c _ | .scanClient _ c _ _ | .expireSection c _ _ =>
    (s.clients c).confirmed = true ∨ (s.slotOf (s.clients c).ownerId).confirmed = none
  | _ => True

instance (s : Shared) (f : Frame) : Decidable (s.DropsConfirmed f) := by
  apply @Frame.casesOn _ f <;> intros <;> dsimp only [Shared.DropsConfirmed] <;> infer_instance

theorem Details.mem_stable_unpersist (hglobal : cfg.perFsidReclaim = false) (d : Details)
    (ownerId : Bytes) (fsids : List UInt32) :
    o ∈ (d.unpersist cfg ownerId fsids).stable 0 ↔ o ∈ d.stable 0 ∧ o ≠ ownerId := by
  simp [unpersist, hglobal, erase]

namespace Tables

variable {cfg : Config} {t t' : Tables} {d d' : Details} {c : ClientRef} {o : Bytes}

theorem settled_of_none (hslot : (t.byOwner o).confirmed = none) (hstable : o ∉ d.stable 0) : t.Settled d o := by
  simp [Settled, hslot, hstable]

theorem confirmed_without (hslots : t.Slots cfg) (hc : c < t.clientRefs) (hreg : t.Registered cfg c)
    (hdrop : (t.clients c).confirmed = true ∨ (t.byOwner (t.clients c).ownerId).confirmed = none) :
    ((t.byOwner (t.clients c).ownerId).without c).confirmed = none := by
  rcases hdrop with hconf | hnone
  · simp [OwnerSlot.without, hslots.lists c hc hreg hconf]
  · simp [OwnerSlot.without, hnone]

theorem byOwner_remove (t : Tables) (c : ClientRef) : (t.remove cfg c).byOwner =
    update t.byOwner (t.clients c).ownerId ((t.byOwner (t.clients c).ownerId).without c) := by
  unfold remove clearSlot
  rw [(SameIds.unpersist cfg t c).ownerId, byOwner_unpersist]
  show update (t.unpersist cfg c).byOwner _ _ = _
  rw [byOwner_unpersist]

theorem byOwner_expired (t : Tables) (c : ClientRef) : (((t.retire c).clearSlot c).unindex cfg c).byOwner =
    update t.byOwner (t.clients c).ownerId ((t.byOwner (t.clients c).ownerId).without c) := by
  have howner : ((t.retire c).clients c).ownerId = (t.clients c).ownerId := by
    simp only [retire, setClient, update_self]
  show update t.byOwner ((t.retire c).clients c).ownerId _ = _
  rw [howner]
  rfl

theorem byOwner_dropUnconfirmed (t : Tables) (slot : OwnerSlot) : (t.dropUnconfirmed cfg slot).byOwner = t.byOwner := by
  unfold dropUnconfirmed
  split <;> rfl

theorem byOwner_confirmIncarnation (t : Tables) (c : ClientRef) : (t.confirmIncarnation cfg c).byOwner =
    update t.byOwner (t.clients c).ownerId
      { confirmed := some c
        unconfirmed := if (t.byOwner (t.clients c).ownerId).unconfirmed = some c then none
          else (t.byOwner (t.clients c).ownerId).unconfirmed } := by
  have hold : (t.retireOld cfg c).byOwner = t.byOwner := by
    unfold retireOld
    split <;> rfl
  show update (t.retireOld cfg c).byOwner _ _ = _
  rw [hold]

theorem Settled.dropped (hglobal : cfg.perFsidReclaim = false) (hslots : t.Slots cfg) (hc : c < t.clientRefs)
    (hreg : t.Registered cfg c)
    (hdrop : (t.clients c).confirmed = true ∨ (t.byOwner (t.clients c).ownerId).confirmed = none)
    {fsids : List UInt32} (hset : t.Settled d o)
    (hstable : d'.stable = (d.unpersist cfg (t.clients c).ownerId fsids).stable) (hpersisted : d'.persisted = d.persisted) :
    (t.remove cfg c).Settled d' o := by
  have hmem : o ∈ d'.stable 0 ↔ o ∈ d.stable 0 ∧ o ≠ (t.clients c).ownerId := by
    rw [hstable]
    exact d.mem_stable_unpersist hglobal _ _
  by_cases ho : o = (t.clients c).ownerId
  · refine settled_of_none ?_ (fun hin => (hmem.mp hin).2 ho)
    rw [byOwner_remove, ho, update_self]
    exact confirmed_without hslots hc hreg hdrop
  · refine settled_congr (hmem.trans (and_iff_left ho)) ?_ (fun _ _ => by rw [hpersisted]) hset
    rw [byOwner_remove, update_of_ne ho]

end Tables

theorem Shared.MakesRoom.settled {args : ExchangeArgs} {slot : OwnerSlot} {u : Tables}
    (h : s.MakesRoom cfg args slot u d) (hglobal : cfg.perFsidReclaim = false)
    (hwf : s.tables.Wf cfg) (hslot : ∀ o, (t.byOwner o).confirmed =
      if o = args.ownerId then slot.confirmed else (u.byOwner o).confirmed)
    (hstable : d'.stable = d.stable) (hpersisted : ∀ c < s.clientRefs, d'.persisted c = d.persisted c)
    (hset : s.tables.Settled s.details o) : t.Settled d' o := by
  cases h with
  | same =>
    refine Tables.settled_congr (by rw [hstable]) ?_ (fun c hc => hpersisted c (hwf.confirmed o c hc).1) hset
    rw [hslot]
    split
    · next ho => rw [ho]; rfl
    · rfl
  | @evicted c hconf =>
    have howner : (s.tables.clients c).ownerId = args.ownerId := (hwf.confirmed _ c hconf).2.1
    have hmem : o ∈ d'.stable 0 ↔ o ∈ s.details.stable 0 ∧ o ≠ args.ownerId := by
      rw [hstable, Details.mem_stable_unpersist hglobal, ← howner]
      rfl
    by_cases ho : o = args.ownerId
    · refine Tables.settled_of_none ?_ (fun hin => (hmem.mp hin).2 ho)
      rw [hslot, if_pos ho]
    · refine Tables.settled_congr (hmem.trans (and_iff_left ho)) ?_ (fun e he => ?_) hset
      · rw [hslot, if_neg ho]
        exact congrArg (fun slots => (slots o).confirmed) (Tables.byOwner_unpersist s.tables c)
      · rw [hpersisted e (hwf.confirmed o e he).1, Details.persisted_unpersist]

theorem Effect.settled (h : Effect cfg s f t d)
    (hchange : Change cfg s.tables f t) (hglobal : cfg.perFsidReclaim = false) (hwf : s.tables.Wf cfg)
    (hslots : s.tables.Slots cfg) (hcurrent : f.Wf s.tables) (htidy : ¬f.Tidies) (hper : ¬f.PerExport)
    (hdrop : s.DropsConfirmed f) (hset : s.tables.Settled s.details o) :
    t.Settled d o ∨
      (∃ c args, f = .createClient c args ∧ (s.clients c).ownerId = o ∧ (s.clients c).confirmed = false ∧
        (t.clients c).confirmed = true) ∨
      ∃ c clientid reason, f = .expireSection c clientid reason ∧ (s.clients c).ownerId = o ∧
        ¬t.Registered cfg c ∧ s.Registered cfg c := by
  have hsame : ∀ {t' : Tables} {d' : Details}, t'.byOwner = s.tables.byOwner → d'.stable = s.details.stable →
      d'.persisted = s.details.persisted → t'.Settled d' o := fun hslot hstable hpersisted =>
    Tables.settled_congr (by rw [hstable]) (by rw [hslot]) (fun _ _ => by rw [hpersisted]) hset
  have hslotted : ∀ {u u' : Tables} {owner : Bytes} {slot : OwnerSlot} {unconfirmed : Option ClientRef},
      u'.byOwner = u.byOwner → ∀ o', (update u'.byOwner owner { slot with unconfirmed := unconfirmed } o').confirmed =
        if o' = owner then slot.confirmed else (u.byOwner o').confirmed := by
    intro u u' owner slot unconfirmed hu o'
    rw [update_apply, hu]
    split <;> rfl
  cases h with
  | plain hf => exact Or.inl (hsame (hchange.byOwner_of_plain hf) rfl rfl)
  | @exchangeFull args slot u d hu =>
    refine Or.inl (hu.settled hglobal hwf (fun o' => ?_) rfl (fun _ _ => rfl) hset)
    exact hslotted (Tables.byOwner_dropUnconfirmed u slot) o'
  | @exchangeNew args slot u d hu =>
    have hold : ∀ c < s.clientRefs, (d.addClient cfg s.clientRefs).persisted c = d.persisted c :=
      fun c hc => update_of_ne (Nat.ne_of_lt hc) _ _
    have hstable : (d.addClient cfg s.clientRefs).stable = d.stable := rfl
    refine Or.inl (hu.settled hglobal hwf (fun o' => ?_) hstable hold hset)
    exact hslotted (Tables.byOwner_dropUnconfirmed u slot) o'
  | @createFirst c args id hconf =>
    by_cases ho : (s.clients c).ownerId = o
    · refine Or.inr (Or.inl ⟨c, args, rfl, ho, hconf, ?_⟩)
      simp [Tables.addSession, Tables.confirmIncarnation, Tables.setClient]
    · left
      refine Tables.settled_congr ?_ ?_ (fun e _ => ?_) hset
      · cases s.oldIncarnation c <;> rfl
      · show ((s.tables.confirmIncarnation cfg c).byOwner o).confirmed = _
        rw [Tables.byOwner_confirmIncarnation]
        exact congrArg OwnerSlot.confirmed (update_of_ne (Ne.symm ho) _ _)
      · cases s.oldIncarnation c <;> rfl
  | @destroyed c clientid hreg =>
    have hreg' : s.tables.Registered cfg c := by
      rw [Tables.Registered, Tables.idKey, hcurrent.2]
      exact hreg
    exact Or.inl (hset.dropped hglobal hslots hcurrent.1 hreg' hdrop rfl (by simp [Details.setCourtesy]))
  | scanLapsed hreg => exact Or.inl (hset.dropped hglobal hslots hcurrent.1 hreg hdrop rfl (by simp))
  | @expire c clientid reason hreg =>
    have hreg' : s.tables.Registered cfg c := by
      rw [Tables.Registered, Tables.idKey, hcurrent.2]
      exact hreg
    by_cases ho : (s.clients c).ownerId = o
    · exact Or.inr (Or.inr ⟨c, clientid, reason, rfl, ho, Tables.not_registered_unindex cfg _ c, hreg'⟩)
    · left
      refine Tables.settled_congr Iff.rfl ?_ (fun _ _ => rfl) hset
      rw [Tables.byOwner_expired]
      exact congrArg OwnerSlot.confirmed (update_of_ne (Ne.symm ho) _ _)
  | persist | unpersist | confirmRefused | confirmed | uncount => exact absurd trivial htidy
  | put | erase => exact absurd trivial hper
  | _ => exact Or.inl (hsame rfl rfl rfl)

/-! ### Requests on one stack -/

/-- The client is registered as the confirmed one of its owner. -/
def Tables.Confirmed (cfg : Config) (t : Tables) (c : ClientRef) : Prop :=
  c < t.clientRefs ∧ t.Registered cfg c ∧ (t.byOwner (t.clients c).ownerId).confirmed = some c

/-- What a section that settles the list relies on. -/
def Frame.Due (cfg : Config) (t : Tables) (d : Details) : Frame → Prop
  | confirmCreateSession clientid _ => ∃ c, t.Confirmed cfg c ∧ (t.clients c).clientid = clientid
  | confirmClient c clientid _ => t.Confirmed cfg c ∧ (t.clients c).clientid = clientid
  | persistClient c => t.Confirmed cfg c ∧ d.persisted c = true
  | unpersistClient c => c < t.clientRefs ∧ (t.byOwner (t.clients c).ownerId).confirmed = none
  | _ => True

/-- The section will settle the owner's listing. -/
def Frame.Settles (t : Tables) (d : Details) (o : Bytes) : Frame → Prop
  | confirmCreateSession clientid _ =>
    ∃ c < t.clientRefs, (t.clients c).clientid = clientid ∧ (t.clients c).ownerId = o ∧ d.persisted c = false
  | confirmClient c _ _ => (t.clients c).ownerId = o ∧ d.persisted c = false
  | persistClient c | unpersistClient c => (t.clients c).ownerId = o
  | _ => False

theorem Frame.Settles.lists (h : f.Settles t d o) : f.Lists := by
  cases f <;> trivial

theorem Frame.due_of_not_lists (h : ¬f.Lists) : f.Due cfg t d := by
  cases f <;> first | trivial | exact absurd trivial h

theorem Frame.Due.tidies {g : Frame} (h : g.Due cfg t d)
    (hchange : Change cfg t f t') (hf : f.Tidies) (hpersisted : ∀ c, d.persisted c = true → d'.persisted c = true) :
    g.Due cfg t' d' := by
  obtain ⟨hids, hbyId, hslot⟩ := hchange.tidies hf
  have hconf : ∀ {c}, t.Confirmed cfg c → t'.Confirmed cfg c := by
    intro c hc
    refine ⟨hids.clientRefs.symm ▸ hc.1, ?_, ?_⟩
    · rw [Tables.Registered, hids.idKey, hbyId]
      exact hc.2.1
    · rw [hids.ownerId, hslot]
      exact hc.2.2
  cases g with
  | confirmCreateSession clientid reply =>
    obtain ⟨c, hc, hid⟩ := h
    exact ⟨c, hconf hc, (hids.clientid c).trans hid⟩
  | confirmClient c clientid reply => exact ⟨hconf h.1, (hids.clientid c).trans h.2⟩
  | persistClient c => exact ⟨hconf h.1, hpersisted c h.2⟩
  | unpersistClient c =>
    refine ⟨hids.clientRefs.symm ▸ h.1, ?_⟩
    rw [hids.ownerId, hslot]
    exact h.2
  | _ => trivial

theorem Frame.Settles.sameIds {g : Frame} (h : g.Settles t d o)
    (hids : t.SameIds t') (hpersisted : ∀ c, (t.clients c).ownerId = o → d'.persisted c = d.persisted c) :
    g.Settles t' d' o := by
  cases g with
  | confirmCreateSession clientid reply =>
    obtain ⟨c, hc, hid, howner, hnot⟩ := h
    exact ⟨c, hids.clientRefs.symm ▸ hc, (hids.clientid c).trans hid, (hids.ownerId c).trans howner,
      (hpersisted c howner).trans hnot⟩
  | confirmClient c clientid reply => exact ⟨(hids.ownerId c).trans h.1, (hpersisted c h.1).trans h.2⟩
  | persistClient c | unpersistClient c => exact (hids.ownerId c).trans h
  | _ => exact h.elim

theorem Effect.persisted (h : Effect cfg s f t d) (hp : d.persisted c = true) :
    s.details.persisted c = true ∨ ∃ clientid reply, f = .confirmClient c clientid reply := by
  cases h with
  | exchangeFull hu =>
    left
    cases hu <;> simpa using hp
  | exchangeNew hu =>
    simp only [Details.addClient, update_apply] at hp
    split at hp
    · cases hp
    · left
      cases hu <;> simpa using hp
  | @createFirst c' =>
    left
    cases hold : s.oldIncarnation c' <;> simpa [hold, Details.renew, Details.retireOld, Details.setCourtesy] using hp
  | @confirmed c' clientid reply =>
    simp only [Details.persist, update_apply] at hp
    split at hp
    · next heq => exact Or.inr ⟨clientid, reply, heq ▸ rfl⟩
    · exact Or.inl hp
  | persist =>
    left
    split at hp <;> exact hp
  | destroyed | scanLapsed | unpersist =>
    left
    simpa [Details.setCourtesy] using hp
  | _ => exact Or.inl hp

theorem Effect.persisted_tidies
    (h : Effect cfg s f t d) (hf : f.Tidies) (hp : s.details.persisted c = true) :
    d.persisted c = true := by
  cases h with
  | confirmed =>
    simp only [Details.persist, update_apply]
    split
    · rfl
    · exact hp
  | persist => split <;> exact hp
  | unpersist => simpa using hp
  | _ => first | exact hp | exact hf.elim

theorem Effect.confirms {clientid : UInt64} {reply : Bytes} (h : Effect cfg s (.confirmClient c clientid reply) t d)
    (hfound : s.byId.find (cfg.ownerShard (s.clients c).ownerId, clientid) ≠ none) : d = s.details.persist c := by
  cases h with
  | plain hf => exact hf.elim
  | confirmRefused hgone => exact absurd hgone hfound
  | confirmed => rfl

theorem Effect.tidies (h : Effect cfg s f t d)
    (hf : f.Tidies) (hlists : ¬f.Lists) (hper : ¬f.PerExport) :
    d.stable = s.details.stable ∧ d.persisted = s.details.persisted := by
  cases h with
  | erase | put => exact absurd trivial hper
  | confirmed | persist | unpersist => exact absurd trivial hlists
  | _ => first | exact ⟨rfl, rfl⟩ | exact hf.elim

theorem Tables.registered_createClient {args : CreateArgs}
    (hchange : Change cfg t (.createClient c args) t') (hi : t.Indexed cfg) (hwf : t.Wf cfg) (hc : c < t.clientRefs)
    (hreg : t.Registered cfg c) : t'.Registered cfg c := by
  cases hchange with
  | quiet hf => exact hf.elim
  | createRefused => exact hreg
  | createAgain => exact (registered_same (SameIds.addSession t c args _) rfl c).mpr hreg
  | createFirst =>
    have hself : t.oldIncarnation c ≠ some c := by simp [oldIncarnation, Option.filter_eq_some_iff]
    rw [registered_same (SameIds.addSession _ c args _) rfl c, registered_confirmIncarnation hi hwf c hc]
    exact ⟨hreg, hself⟩
  | insert hins => cases hins
  | trackRefused htrack | track htrack => cases htrack

namespace Shared

variable {cfg : Config} {s : Shared} {input : Input}

theorem createSession_singleton (cfg : Config) (s : Shared) (args : CreateArgs) : ∃ g, s.createSession cfg args = [g] := by
  unfold createSession
  split
  · exact ⟨_, rfl⟩
  · split
    · exact ⟨_, rfl⟩
    · split <;> exact ⟨_, rfl⟩

theorem confirms_first {c : ClientRef} {args : CreateArgs} (hnew : (s.clients c).confirmed = false)
    (hconf : ((s.exec cfg input (.createClient c args)).1.tables.clients c).confirmed = true) :
    ∃ body, Frame.confirmCreateSession args.clientid body ∈ (s.exec cfg input (.createClient c args)).2 := by
  have hsame : (s.tables.clients c).confirmed ≠ true := by simpa [tables, ClientRec.view] using hnew
  revert hconf
  simp only [exec, createClient]
  split
  · exact fun hconf => absurd hconf hsame
  · split
    · exact fun hconf => absurd hconf hsame
    · split
      · exact fun hconf => absurd hconf hsame
      · intro _
        simp [hnew, acceptedFrames]

theorem persisted_of_persists {c : ClientRef} {clientid : UInt64} {body : Bytes}
    (hg : Frame.persistClient c ∈ (s.exec cfg input (.confirmClient c clientid body)).2) :
    (s.exec cfg input (.confirmClient c clientid body)).1.details.persisted c = true := by
  simp only [exec, confirmClient] at hg ⊢
  split at hg
  · exact absurd hg List.not_mem_nil
  · simp [details, modClient]

theorem removed_of_unpersists {c : ClientRef} {clientid : UInt64} {reason : Reason}
    (hg : Frame.unpersistClient c ∈ (s.exec cfg input (.expireSection c clientid reason)).2) :
    s.byId.find (cfg.ownerShard (s.clients c).ownerId, clientid) = some c ∧
      (s.exec cfg input (.expireSection c clientid reason)).1.tables =
        ((s.tables.retire c).clearSlot c).unindex cfg c := by
  simp only [exec, expireSection] at hg ⊢
  split at hg
  · exact absurd hg List.not_mem_nil
  · next hdue =>
    push Not at hdue
    rw [if_neg (by simpa using hdue)]
    exact ⟨hdue.1, by rw [tables_unindex, tables_clearSlot, tables_retire]⟩

theorem unpersists_expired {c : ClientRef} {clientid : UInt64} {reason : Reason} (hreg : s.Registered cfg c)
    (hgone : ¬(s.exec cfg input (.expireSection c clientid reason)).1.tables.Registered cfg c) :
    Frame.unpersistClient c ∈ (s.exec cfg input (.expireSection c clientid reason)).2 := by
  revert hgone
  simp only [exec, expireSection]
  split
  · exact fun hgone => absurd hreg hgone
  · simp

end Shared

/-- One request after the other; no unconfirmed record is dropped beside a confirmed one of its owner, and
client ids are left for new clients. -/
abbrev confirmedDrops : Machine.Rules Shared Frame Input where
  spawn _ fs f := fs = [] ∧ f.Request
  step s _ _ f := s.tables.ClientIdsLeft f ∧ s.DropsConfirmed f

structure ListInv (cfg : Config) (s : Shared) (fs : List Frame) : Prop where
  live : Live cfg s fs
  indexed : s.tables.Indexed cfg
  slots : s.tables.Slots cfg
  order : fs.Pairwise fun f g => g.Lists → f.Tidies
  lone : ∀ f ∈ fs, f.Creates → fs = [f]
  found : ∀ c args, Frame.createClient c args ∈ fs → s.tables.Registered cfg c
  shared : ∀ f ∈ fs, ¬f.PerExport
  persisted : ∀ c, s.details.persisted c = true → c < s.clientRefs ∧ (s.clients c).confirmed = true
  due : ∀ f ∈ fs, f.Due cfg s.tables s.details
  settled : ∀ o, s.tables.Settled s.details o ∨ ∃ f ∈ fs, f.Settles s.tables s.details o

namespace ListInv

variable {cfg : Config} {s : Shared} {fs rest : List Frame} {f : Frame}

theorem boot (cfg : Config) : ListInv cfg LightNfs.boot.state [] where
  live := Live.boot cfg
  indexed := Tables.Indexed.boot cfg
  slots := Tables.Slots.boot cfg
  order := .nil
  lone := List.forall_mem_nil _
  found := fun _ _ h => absurd h List.not_mem_nil
  shared := List.forall_mem_nil _
  persisted := fun c h => absurd h (by simp [Machine.start, Shared.details])
  due := List.forall_mem_nil _
  settled := fun o => Or.inl (Tables.settled_of_none (by simp [Machine.start, Shared.tables])
    (by simp [Machine.start, Shared.details]))

theorem spawn (h : ListInv cfg s []) (hf : f.Request) : ListInv cfg s [f] where
  live := h.live.spawn hf
  indexed := h.indexed
  slots := h.slots
  order := List.pairwise_singleton _ _
  lone := fun g hg _ => by rw [List.mem_singleton.mp hg]
  found := fun c args hg => by
    rw [← List.mem_singleton.mp hg] at hf
    exact hf.elim
  shared := List.forall_mem_singleton.mpr hf.not_perExport
  persisted := h.persisted
  due := List.forall_mem_singleton.mpr (Frame.due_of_not_lists hf.not_lists)
  settled := fun o => Or.inl ((h.settled o).resolve_right fun ⟨_, hg, _⟩ => absurd hg List.not_mem_nil)

section Step

variable (h : ListInv cfg s (f :: rest)) (input : Input)

include h

theorem order_step : ((s.exec cfg input f).2 ++ rest).Pairwise fun f g => g.Lists → f.Tidies := by
  have hflow := s.exec_flow cfg input f
  obtain ⟨hhead, hrest⟩ := List.pairwise_cons.mp h.order
  refine List.pairwise_append.mpr ⟨?_, hrest, fun a ha b hb hlists => ?_⟩
  · exact List.pairwise_of_forall_mem_list fun a ha b hb hlists => (hflow a ha).tidies ((hflow b hb).lists hlists)
  · exact (hflow a ha).tidies (Or.inl (hhead b hb hlists))

theorem rest_of_creates {g : Frame} (hg : g ∈ rest) : ¬g.Creates := by
  intro hcreates
  have hone := h.lone g (List.mem_cons_of_mem f hg) hcreates
  rw [List.cons_eq_cons] at hone
  exact absurd hg (hone.2 ▸ List.not_mem_nil)

theorem lone_step : ∀ g ∈ (s.exec cfg input f).2 ++ rest, g.Creates → (s.exec cfg input f).2 ++ rest = [g] := by
  intro g hg hcreates
  rcases List.mem_append.mp hg with hg | hg
  · have hfollows := s.exec_flow cfg input f g hg
    have hone := h.lone f (List.mem_cons_self ..) (hfollows.creates hcreates)
    obtain rfl : rest = [] := (List.cons_eq_cons.mp hone).2
    cases hfollows with
    | @createClient args c =>
      obtain ⟨g', hnext⟩ := Shared.createSession_singleton cfg s args
      simp only [Shared.exec] at hg ⊢
      rw [hnext] at hg ⊢
      rw [List.mem_singleton.mp hg, List.append_nil]
    | _ => exact hcreates.elim
  · exact absurd hcreates (h.rest_of_creates hg)

theorem found_step (c : ClientRef) (args : CreateArgs) (hg : Frame.createClient c args ∈ (s.exec cfg input f).2 ++ rest) :
    (s.exec cfg input f).1.tables.Registered cfg c := by
  rcases List.mem_append.mp hg with hg | hg
  · cases s.exec_flow cfg input f _ hg with
    | createClient hc =>
      obtain ⟨hlt, hid⟩ := h.live.tables.idx _ _ hc
      exact (h.indexed.idx c hlt).mp (hid.symm ▸ hc)
  · exact absurd trivial (h.rest_of_creates hg)

theorem persisted_step (c : ClientRef) (hp : (s.exec cfg input f).1.details.persisted c = true) :
    c < (s.exec cfg input f).1.clientRefs ∧ ((s.exec cfg input f).1.clients c).confirmed = true := by
  have he : s.tables.Extends (s.exec cfg input f).1.tables := .of_change (s.exec_change cfg input f)
  suffices hold : c < s.clientRefs ∧ (s.tables.clients c).confirmed = true from
    ⟨hold.1.trans_le he.clientRefs, he.confirmed c hold.1 hold.2⟩
  rcases (s.exec_effect cfg input f).persisted hp with hbefore | ⟨clientid, reply, rfl⟩
  · exact h.persisted c hbefore
  · obtain ⟨⟨hlt, -, hslot⟩, -⟩ := h.due _ (List.mem_cons_self ..)
    exact ⟨hlt, (h.live.tables.confirmed _ c hslot).2.2⟩

theorem all_settled (htidy : ¬f.Tidies) : (∀ g ∈ f :: rest, ¬g.Lists) ∧ ∀ o, s.tables.Settled s.details o := by
  have hnone : ∀ g ∈ f :: rest, ¬g.Lists := by
    intro g hg hlists
    rcases List.mem_cons.mp hg with rfl | hg
    · exact htidy hlists.tidies
    · exact htidy ((List.pairwise_cons.mp h.order).1 g hg hlists)
  exact ⟨hnone, fun o => (h.settled o).resolve_right fun ⟨g, hg, hsettles⟩ => hnone g hg hsettles.lists⟩

theorem due_next (hdrop : s.DropsConfirmed f) (hslots : (s.exec cfg input f).1.tables.Slots cfg) {g : Frame}
    (hg : g ∈ (s.exec cfg input f).2) :
    g.Due cfg (s.exec cfg input f).1.tables (s.exec cfg input f).1.details := by
  have hchange := s.exec_change cfg input f
  have he : s.tables.Extends (s.exec cfg input f).1.tables := .of_change hchange
  by_cases hlists : g.Lists
  · cases s.exec_flow cfg input f g hg with
    | @createConfirm c args body hconf =>
      obtain ⟨hlt, hid⟩ := h.live.frames _ (List.mem_cons_self ..)
      have hlt' := hlt.trans_le he.clientRefs
      have hreg := Tables.registered_createClient hchange h.indexed h.live.tables hlt (h.found c args (List.mem_cons_self ..))
      exact ⟨c, ⟨hlt', hreg, hslots.lists c hlt' hreg hconf⟩, (he.clientid c hlt).trans hid⟩
    | @confirmClient clientid body c hc =>
      obtain ⟨c', hconf, hid⟩ := h.due _ (List.mem_cons_self ..)
      obtain ⟨hlt, hid'⟩ := h.live.tables.idx _ _ hc
      obtain rfl := h.indexed.unique c' c hconf.1 hlt (hid.trans hid'.symm)
      exact ⟨hconf, hid⟩
    | @persistClient c clientid body =>
      have hdue := h.due _ (List.mem_cons_self ..)
      have heffect := s.exec_effect cfg input (.confirmClient c clientid body)
      have hkept := hdue.tidies hchange trivial fun _ => heffect.persisted_tidies trivial
      exact ⟨hkept.1, Shared.persisted_of_persists hg⟩
    | @expireUnpersist c clientid reason hexp =>
      obtain ⟨hlt, hid⟩ := h.live.frames _ (List.mem_cons_self ..)
      obtain ⟨hreg, htables⟩ := Shared.removed_of_unpersists hg
      have hreg' : s.tables.Registered cfg c := by
        rw [Tables.Registered, Tables.idKey, hid]
        exact hreg
      refine ⟨hlt.trans_le he.clientRefs, ?_⟩
      rw [he.ownerId c hlt, htables, Tables.byOwner_expired, update_self]
      exact Tables.confirmed_without h.slots hlt hreg' hdrop
    | _ => exact hlists.elim
  · exact Frame.due_of_not_lists hlists

theorem settled_kept (htidy : f.Tidies) {o : Bytes} (hf : ¬f.Settles s.tables s.details o)
    (hstable : o ∈ (s.exec cfg input f).1.details.stable 0 ↔ o ∈ s.details.stable 0)
    (hpersisted : ∀ c, (s.tables.clients c).ownerId = o →
      (s.exec cfg input f).1.details.persisted c = s.details.persisted c) :
    (s.exec cfg input f).1.tables.Settled (s.exec cfg input f).1.details o ∨
      ∃ g ∈ (s.exec cfg input f).2 ++ rest,
        g.Settles (s.exec cfg input f).1.tables (s.exec cfg input f).1.details o := by
  obtain ⟨hids, -, hslot⟩ := (s.exec_change cfg input f).tidies htidy
  rcases h.settled o with hset | ⟨g, hg, hsettles⟩
  · refine Or.inl (Tables.settled_congr hstable (by rw [hslot]) (fun c hc => hpersisted c ?_) hset)
    exact (h.live.tables.confirmed o c hc).2.1
  · rcases List.mem_cons.mp hg with rfl | hg
    · exact absurd hsettles hf
    · exact Or.inr ⟨g, List.mem_append_right _ hg, hsettles.sameIds hids hpersisted⟩

theorem settled_confirmCreateSession {clientid : UInt64} {body : Bytes} (hf : f = .confirmCreateSession clientid body)
    (o : Bytes) :
    (s.exec cfg input f).1.tables.Settled (s.exec cfg input f).1.details o ∨
      ∃ g ∈ (s.exec cfg input f).2 ++ rest,
        g.Settles (s.exec cfg input f).1.tables (s.exec cfg input f).1.details o := by
  subst hf
  by_cases hsettles : (Frame.confirmCreateSession clientid body).Settles s.tables s.details o
  · obtain ⟨c, hc, hid, howner, hnot⟩ := hsettles
    obtain ⟨c', hconf, hid'⟩ := h.due _ (List.mem_cons_self ..)
    obtain rfl := h.indexed.unique c' c hconf.1 hc (hid'.trans hid.symm)
    have hfind : s.findClient cfg clientid = some c' := hid ▸ Shared.findClient_of_registered h.indexed hc hconf.2.1
    refine Or.inr ⟨.confirmClient c' clientid body, ?_, howner, hnot⟩
    simp [Shared.exec, Shared.confirmCreateSession, hfind]
  · exact h.settled_kept input trivial hsettles Iff.rfl fun _ _ => rfl

theorem settled_confirmClient {c : ClientRef} {clientid : UInt64} {body : Bytes}
    (hf : f = .confirmClient c clientid body) (o : Bytes) :
    (s.exec cfg input f).1.tables.Settled (s.exec cfg input f).1.details o ∨
      ∃ g ∈ (s.exec cfg input f).2 ++ rest,
        g.Settles (s.exec cfg input f).1.tables (s.exec cfg input f).1.details o := by
  subst hf
  obtain ⟨hids, -, -⟩ := (s.exec_change cfg input (.confirmClient c clientid body)).tidies trivial
  obtain ⟨⟨-, hreg, -⟩, hid⟩ := h.due _ (List.mem_cons_self ..)
  have hfound : s.byId.find (cfg.ownerShard (s.clients c).ownerId, clientid) = some c := by
    rw [← hid]
    exact hreg
  have hdetails := (s.exec_effect cfg input (.confirmClient c clientid body)).confirms (by simp [hfound])
  by_cases hfirst : (s.tables.clients c).ownerId = o ∧ (s.clients c).persisted = false
  · refine Or.inr ⟨.persistClient c, ?_, (hids.ownerId c).trans hfirst.1⟩
    simp [Shared.exec, Shared.confirmClient, hfound, hfirst.2]
  · refine h.settled_kept input trivial hfirst (by rw [hdetails]; rfl) fun e he => ?_
    rw [hdetails]
    simp only [Details.persist, update_apply]
    split
    · next heq =>
      subst heq
      exact (Bool.eq_true_of_not_eq_false fun hnot => hfirst ⟨he, hnot⟩).symm
    · rfl

theorem settled_persistClient (hglobal : cfg.perFsidReclaim = false) {c : ClientRef} (hf : f = .persistClient c)
    (o : Bytes) :
    (s.exec cfg input f).1.tables.Settled (s.exec cfg input f).1.details o ∨
      ∃ g ∈ (s.exec cfg input f).2 ++ rest,
        g.Settles (s.exec cfg input f).1.tables (s.exec cfg input f).1.details o := by
  subst hf
  obtain ⟨-, -, hslot⟩ := (s.exec_change cfg input (.persistClient c)).tidies trivial
  obtain ⟨⟨-, -, hconf⟩, hpersisted⟩ := h.due _ (List.mem_cons_self ..)
  have hdetails : (s.exec cfg input (.persistClient c)).1.details = s.details.put 0 (s.clients c).ownerId := by
    simp only [Shared.exec, Shared.persistClient, hglobal]
    rfl
  by_cases howner : (s.tables.clients c).ownerId = o
  · left
    rw [Tables.Settled, hslot, hdetails]
    refine iff_of_true ?_ ⟨c, howner ▸ hconf, hpersisted⟩
    simp only [Details.put, update_self, List.mem_union_iff]
    exact Or.inr (List.mem_singleton.mpr howner.symm)
  · refine h.settled_kept input trivial howner ?_ fun _ _ => by rw [hdetails]; rfl
    rw [hdetails]
    simp only [Details.put, update_self, List.mem_union_iff, List.mem_singleton]
    exact or_iff_left (Ne.symm howner)

theorem settled_unpersistClient (hglobal : cfg.perFsidReclaim = false) {c : ClientRef} (hf : f = .unpersistClient c)
    (o : Bytes) :
    (s.exec cfg input f).1.tables.Settled (s.exec cfg input f).1.details o ∨
      ∃ g ∈ (s.exec cfg input f).2 ++ rest,
        g.Settles (s.exec cfg input f).1.tables (s.exec cfg input f).1.details o := by
  subst hf
  obtain ⟨-, -, hslot⟩ := (s.exec_change cfg input (.unpersistClient c)).tidies trivial
  obtain ⟨-, hnone⟩ := h.due _ (List.mem_cons_self ..)
  have hdetails : (s.exec cfg input (.unpersistClient c)).1.details =
      s.details.unpersist cfg (s.clients c).ownerId (s.clients c).fsStates.keys := s.details_unpersistClient cfg c
  have hmem : o ∈ (s.exec cfg input (.unpersistClient c)).1.details.stable 0 ↔
      o ∈ s.details.stable 0 ∧ o ≠ (s.clients c).ownerId := by
    rw [hdetails]
    exact s.details.mem_stable_unpersist hglobal _ _
  by_cases howner : (s.tables.clients c).ownerId = o
  · refine Or.inl (Tables.settled_of_none ?_ fun hin => (hmem.mp hin).2 howner.symm)
    rw [hslot, ← howner]
    exact hnone
  · refine h.settled_kept input trivial howner (hmem.trans (and_iff_left (Ne.symm howner))) fun _ _ => ?_
    rw [hdetails, Details.persisted_unpersist]

theorem settled_step (hglobal : cfg.perFsidReclaim = false) (hdrop : s.DropsConfirmed f) (o : Bytes) :
    (s.exec cfg input f).1.tables.Settled (s.exec cfg input f).1.details o ∨
      ∃ g ∈ (s.exec cfg input f).2 ++ rest,
        g.Settles (s.exec cfg input f).1.tables (s.exec cfg input f).1.details o := by
  have hchange := s.exec_change cfg input f
  have heffect := s.exec_effect cfg input f
  have hper := h.shared f (List.mem_cons_self ..)
  by_cases htidy : f.Tidies
  · by_cases hlists : f.Lists
    · cases f with
      | confirmCreateSession clientid body => exact h.settled_confirmCreateSession input rfl o
      | confirmClient c clientid body => exact h.settled_confirmClient input rfl o
      | persistClient c => exact h.settled_persistClient input hglobal rfl o
      | unpersistClient c => exact h.settled_unpersistClient input hglobal rfl o
      | _ => exact hlists.elim
    · obtain ⟨hstable, hpersisted⟩ := heffect.tidies htidy hlists hper
      exact h.settled_kept input htidy (fun hsettles => hlists hsettles.lists) (by rw [hstable])
        fun _ _ => by rw [hpersisted]
  · have hwf := h.live.frames f (List.mem_cons_self ..)
    have he : s.tables.Extends (s.exec cfg input f).1.tables := .of_change hchange
    rcases heffect.settled hchange hglobal h.live.tables h.slots hwf htidy hper hdrop ((h.all_settled htidy).2 o) with
      hset | ⟨c, args, rfl, howner, hnew, hconf⟩ | ⟨c, clientid, reason, rfl, howner, hgone, hreg⟩
    · exact Or.inl hset
    · -- the client's first session: `confirm_create_session` is on the stack
      obtain ⟨body, hmem⟩ := Shared.confirms_first hnew hconf
      refine Or.inr ⟨_, List.mem_append_left _ hmem, c, hwf.1.trans_le he.clientRefs, ?_, ?_, ?_⟩
      · exact (he.clientid c hwf.1).trans hwf.2
      · exact (he.ownerId c hwf.1).trans howner
      · by_contra hp
        rcases heffect.persisted (Bool.eq_true_of_not_eq_false hp) with hbefore | ⟨_, _, hne⟩
        · exact absurd (h.persisted c hbefore).2 (by simp [hnew])
        · exact absurd hne (by simp)
    · exact Or.inr ⟨_, List.mem_append_left _ (Shared.unpersists_expired hreg hgone), (he.ownerId c hwf.1).trans howner⟩

end Step

theorem step (h : ListInv cfg s (f :: rest)) (hglobal : cfg.perFsidReclaim = false) (input : Input)
    (hids : s.tables.ClientIdsLeft f) (hdrop : s.DropsConfirmed f) :
    ListInv cfg (s.exec cfg input f).1 ((s.exec cfg input f).2 ++ rest) := by
  have hchange := s.exec_change cfg input f
  have hwf := h.live.frames f (List.mem_cons_self ..)
  have hstays : s.tables.ClientStays cfg f := by
    cases f with
    | createClient c args => exact fun _ => h.found c args (List.mem_cons_self ..)
    | _ => trivial
  have hslots := h.slots.change h.indexed h.live.tables hwf hids hstays hchange
  have hlive : Live cfg s ([] ++ f :: rest) := h.live
  refine
    { live := hlive.step input
      indexed := h.indexed.change h.live.tables hwf hids hchange
      slots := hslots
      order := h.order_step input
      lone := h.lone_step input
      found := h.found_step input
      shared := fun g hg => ?_
      persisted := h.persisted_step input
      due := fun g hg => ?_
      settled := h.settled_step input hglobal hdrop }
  · rcases List.mem_append.mp hg with hg | hg
    · exact fun hper => absurd ((s.exec_flow cfg input f g hg).perExport hper) (by simp [hglobal])
    · exact h.shared g (List.mem_cons_of_mem f hg)
  · rcases List.mem_append.mp hg with hg | hg
    · exact h.due_next input hdrop hslots hg
    · by_cases htidy : f.Tidies
      · exact (h.due g (List.mem_cons_of_mem f hg)).tidies hchange htidy
          fun _ => (s.exec_effect cfg input f).persisted_tidies htidy
      · exact Frame.due_of_not_lists ((h.all_settled htidy).1 g (List.mem_cons_of_mem f hg))

end ListInv

/-- The owners of the confirmed clients whose `confirm_create_session` has run, and no others, are on the
global list. -/
structure Shared.ListsConfirmed (cfg : Config) (s : Shared) : Prop where
  listed : ∀ key c, s.byId.find key = some c → (s.clients c).confirmed = true → (s.clients c).persisted = true →
    (s.clients c).ownerId ∈ s.stable 0
  held : ∀ o ∈ s.stable 0, ∃ c, s.Registered cfg c ∧ (s.clients c).confirmed = true ∧ (s.clients c).persisted = true ∧
    (s.clients c).ownerId = o

theorem ListInv.listsConfirmed (h : ListInv cfg s []) : s.ListsConfirmed cfg := by
  have hsettled : ∀ o, s.tables.Settled s.details o :=
    fun o => (h.settled o).resolve_right fun ⟨_, hg, _⟩ => absurd hg List.not_mem_nil
  refine ⟨fun key c hc hconf hpersisted => ?_, fun o ho => ?_⟩
  · obtain ⟨hlt, rfl⟩ := h.live.tables.ids key c hc
    exact (hsettled _).mpr ⟨c, h.slots.lists c hlt hc hconf, hpersisted⟩
  · obtain ⟨c, hslot, hpersisted⟩ := (hsettled o).mp ho
    obtain ⟨-, howner, hconf⟩ := h.live.tables.confirmed o c hslot
    exact ⟨c, h.slots.confirmed o c hslot, hconf, hpersisted, howner⟩

/-- After every sequence of completed requests in which no unconfirmed record is dropped beside a confirmed one of
its owner, the global list names exactly the owners of the confirmed clients. -/
theorem global_list_names_confirmed (cfg : Config) (hglobal : cfg.perFsidReclaim = false)
    (events : List (Machine.Event Frame Input)) (hrun : confirmedDrops.Permits (server cfg) boot events)
    (hquiet : ((server cfg).run boot events).Quiescent) :
    ((server cfg).run boot events).state.ListsConfirmed cfg := by
  have hinv : ListInv cfg ((server cfg).run boot events).state ((server cfg).run boot events).frames :=
    Machine.run_sequential (r := confirmedDrops) (fun _ _ _ hspawn => hspawn.1) (fun _ _ h hspawn => h.spawn hspawn.2)
      (fun _ _ _ input h hstep => h.step hglobal input hstep.1 hstep.2) (Or.inl ⟨rfl, rfl⟩) (ListInv.boot cfg) hrun
  rw [hquiet] at hinv
  exact hinv.listsConfirmed

/-- A client restarts with a new verifier, and its new record takes the place of the old one. -/
def clientRestart : List (Machine.Event Frame Input) :=
  join 0 [65] 0x100000001 ++ request 3 (.exchangeId { ownerId := [65], verifier := 2, principal := [65] }) 2 ++
    request 4 (.createSession { clientid := 0x100000002, sequence := 1, principal := [65] }) 8

/-- Another client joins and a third one registers and leaves. When the leases have run out, the scan makes the second
client a courtesy one and it is expired. -/
def clientsLeave : List (Machine.Event Frame Input) :=
  clientRestart ++ join 5 [66] 0x100000003 ++
    request 8 (.exchangeId { ownerId := [67], verifier := 1, principal := [67] }) 2 ++
    request 9 (.destroyClientid 0x100000004) 4 ++ request 10 (.tick 91000000000) 1 ++ request 11 .scanLeases 7 ++
    request 12 (.expireClient 0x100000003 .forced) 5

theorem global_list_names_confirmed_after_restart :
    ((server {}).run boot clientsLeave).state.stable 0 = [[65]] ∧
      ((server {}).run boot clientsLeave).state.ListsConfirmed {} :=
  ⟨by decide +kernel, global_list_names_confirmed {} rfl _ (by decide +kernel) (by decide +kernel)⟩

/-- The client changes its mind and destroys the new record before it is confirmed. -/
def restartUndone : List (Machine.Event Frame Input) :=
  join 0 [65] 0x100000001 ++ request 3 (.exchangeId { ownerId := [65], verifier := 2, principal := [65] }) 2 ++
    request 4 (.destroyClientid 0x100000002) 4

/-- Its confirmed record is still there, and its owner is no longer listed. -/
theorem global_list_loses_confirmed :
    inSequence.Permits (server {}) boot restartUndone ∧ ((server {}).run boot restartUndone).Quiescent ∧
      ¬((server {}).run boot restartUndone).state.ListsConfirmed {} := by
  refine ⟨by decide +kernel, by decide +kernel, fun h => ?_⟩
  have hlisted := h.listed (Config.ownerShard {} [65], 0x100000001) 0 (by decide +kernel) (by decide +kernel)
    (by decide +kernel)
  exact absurd hlisted (by decide +kernel)

end LightNfs
