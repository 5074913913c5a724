import LightNfs.State.Details
import LightNfs.State.Registry

/-!
# Leases and their reclaim

A client whose lease has run out becomes a courtesy client; OPEN, LOCK, LOCKT and the lease scan look at that
flag and then ask for the client to be expired. The section that expires it does not look again, so a renewal
in between is lost. While no renewal overtakes a pending reclaim, only courtesy clients are reclaimed.
-/

namespace LightNfs

open Function

/-- The client ids the frame is about to have expired for their lease. -/
def Frame.targets : Frame → List UInt64
  | expireClient clientid reason | expireSection _ clientid reason => if reason = .forced then [] else [clientid]
  | scanDue _ _ timedOut | scanClient _ _ _ timedOut => timedOut
  | _ => []

/-- The time a lease scan has taken at its start. -/
def Frame.scanTime : Frame → Option Int
  | scanDue now _ _ | scanClient now _ _ _ => some now
  | _ => none

/-! ### The flag and the lease -/

variable {d : Details} {cfg : Config} {s : Shared} {f : Frame} {t : Tables}

theorem Details.now_mono {d' : Details} (h : d.clock ≤ d'.clock) : d.now ≤ d'.now := by
  unfold now
  omega

theorem Shared.MakesRoom.leases {args : ExchangeArgs} {slot : OwnerSlot} {u : Tables}
    (h : s.MakesRoom cfg args slot u d) :
    d.courtesy = s.details.courtesy ∧ d.leaseExpiry = s.details.leaseExpiry := by
  cases h <;> simp

theorem Effect.clock (h : Effect cfg s f t d) :
    s.details.clock ≤ d.clock := by
  cases h with
  | tick => exact Nat.le_add_right _ _
  | exchangeFull hu => cases hu <;> simp
  | exchangeNew hu => cases hu <;> simp [Details.addClient, Details.renew, Details.setCourtesy]
  | @createFirst c =>
    cases hold : s.oldIncarnation c <;> simp [Details.renew, Details.retireOld, Details.setCourtesy]
  | persist => split <;> exact Nat.le_refl _
  | destroyed => simp [Details.setCourtesy]
  | scanLapsed => simp
  | unpersist => simp
  | _ => exact Nat.le_refl _

theorem Effect.courtesy_kept (h : Effect cfg s f t d)
    (hindexed : s.tables.Indexed cfg) (hwf : s.tables.Wf cfg) {c : ClientRef} (hc : c < s.clientRefs)
    (hcourtesy : s.details.courtesy c = true) :
    d.courtesy c = true ∨ s.renews f = some c ∨ ¬t.Registered cfg c := by
  have hset : ∀ {e : Details} {c' : ClientRef} {b : Bool}, e.courtesy c = true → c ≠ c' →
      (e.setCourtesy c' b).courtesy c = true := fun he hne => (update_of_ne hne _ _).trans he
  have hrenew : ∀ {e : Details} {c' : ClientRef}, e.courtesy c = true → c ≠ c' → (e.renew cfg c').courtesy c = true :=
    fun he hne => (update_of_ne hne _ _).trans he
  cases h with
  | @exchangeRenew args c' hrenews | @sequenceRenew args c' hrenews =>
    by_cases hcc : c = c'
    · exact Or.inr (Or.inl (hcc ▸ hrenews))
    · exact Or.inl (hrenew hcourtesy hcc)
  | exchangeFull hu => exact Or.inl ((congrFun hu.leases.1 c).trans hcourtesy)
  | exchangeNew hu => exact Or.inl (hrenew ((congrFun hu.leases.1 c).trans hcourtesy) (Nat.ne_of_lt hc))
  | @createAgain c' args id hconf hcreates =>
    by_cases hcc : c = c'
    · subst hcc
      exact Or.inr (Or.inl (if_pos hcreates))
    · exact Or.inl (hrenew hcourtesy hcc)
  | @createFirst c' args id hconf hcreates =>
    by_cases hcc : c = c'
    · subst hcc
      exact Or.inr (Or.inl (if_pos hcreates))
    · by_cases hold : s.oldIncarnation c' = some c
      · refine Or.inr (Or.inr fun hreg => ?_)
        rw [Tables.registered_same (Tables.SameIds.addSession _ c' args id) rfl,
          Tables.registered_confirmIncarnation hindexed hwf c' hc] at hreg
        exact hreg.2 hold
      · refine Or.inl (hrenew ?_ hcc)
        cases hsome : s.oldIncarnation c' with
        | none => exact hcourtesy
        | some old => exact hset hcourtesy fun heq => hold (heq ▸ hsome)
  | persist => split <;> exact Or.inl hcourtesy
  | @destroyed c' =>
    by_cases hcc : c = c'
    · subst hcc
      exact Or.inr (Or.inr (Tables.not_registered_unindex cfg _ c))
    · exact Or.inl (hset (by simpa using hcourtesy) hcc)
  | scanLapsed => exact Or.inl (by simpa using hcourtesy)
  | @scanCourtesy now c' =>
    refine Or.inl ?_
    by_cases hcc : c = c'
    · subst hcc
      exact update_self ..
    · exact hset hcourtesy hcc
  | @expire c' =>
    by_cases hcc : c = c'
    · subst hcc
      exact Or.inr (Or.inr (Tables.not_registered_unindex cfg _ c))
    · exact Or.inl (hset hcourtesy hcc)
  | unpersist => exact Or.inl (by simpa using hcourtesy)
  | _ => exact Or.inl hcourtesy

theorem Effect.courtesy_origin
    (h : Effect cfg s f t d) {c : ClientRef} (hcourtesy : d.courtesy c = true) :
    d.leaseExpiry c = s.details.leaseExpiry c ∧
      (s.details.courtesy c = true ∨ ∃ now, f.scanTime = some now ∧ s.details.leaseExpiry c ≤ now) := by
  have hset : ∀ {e : Details} {c' : ClientRef}, (e.setCourtesy c' false).courtesy c = true → e.courtesy c = true := by
    intro e c' he
    simp only [Details.setCourtesy, update_apply] at he
    split at he
    · cases he
    · exact he
  have hrenew : ∀ {e : Details} {c' : ClientRef}, (e.renew cfg c').courtesy c = true →
      (e.renew cfg c').leaseExpiry c = e.leaseExpiry c ∧ e.courtesy c = true := by
    intro e c' he
    simp only [Details.renew, Details.setCourtesy, update_apply] at he ⊢
    split at he
    · cases he
    · next hne => exact ⟨if_neg hne, he⟩
  cases h with
  | exchangeRenew => exact (hrenew hcourtesy).imp_right Or.inl
  | exchangeFull hu =>
    obtain ⟨hflag, hlease⟩ := hu.leases
    rw [hflag] at hcourtesy
    rw [hlease]
    exact ⟨rfl, Or.inl hcourtesy⟩
  | exchangeNew hu =>
    obtain ⟨hflag, hlease⟩ := hu.leases
    obtain ⟨hkept, hold⟩ := hrenew hcourtesy
    rw [hflag] at hold
    exact ⟨hkept.trans (congrFun hlease c), Or.inl hold⟩
  | createAgain => exact (hrenew hcourtesy).imp_right Or.inl
  | @createFirst c' =>
    obtain ⟨hlease, hc⟩ := hrenew hcourtesy
    cases hold : s.oldIncarnation c' with
    | none =>
      rw [hold] at hlease hc
      exact ⟨hlease, Or.inl hc⟩
    | some old =>
      rw [hold] at hlease hc
      exact ⟨hlease, Or.inl (hset hc)⟩
  | persist =>
    by_cases hper : cfg.perFsidReclaim = true
    · rw [if_pos hper] at hcourtesy ⊢
      exact ⟨rfl, Or.inl hcourtesy⟩
    · rw [if_neg hper] at hcourtesy ⊢
      exact ⟨rfl, Or.inl hcourtesy⟩
  | destroyed => exact ⟨by simp [Details.setCourtesy], Or.inl (by simpa using hset hcourtesy)⟩
  | sequenceRenew => exact (hrenew hcourtesy).imp_right Or.inl
  | scanLapsed => exact ⟨by simp, Or.inl (by simpa using hcourtesy)⟩
  | @scanCourtesy now c' due timedOut hreg hlease =>
    refine ⟨rfl, ?_⟩
    by_cases hcc : c = c'
    · subst hcc
      exact Or.inr ⟨now, rfl, hlease⟩
    · exact Or.inl ((update_of_ne hcc _ _).symm.trans hcourtesy)
  | expire => exact ⟨rfl, Or.inl (hset hcourtesy)⟩
  | unpersist => exact ⟨by simp, Or.inl (by simpa using hcourtesy)⟩
  | _ => exact ⟨rfl, Or.inl hcourtesy⟩

/-! ### Where reclaims come from -/

namespace Shared

theorem arbitrate_courtesy {s : Shared} {c : ClientRef} {args : OpenArgs} {opens : List StateRef}
    {mine : Option StateRef} {clientid : UInt64}
    (h : (s.arbitrate c args mine opens).courtesyConflict = some clientid) :
    ∃ r ∈ opens, (s.holder r).clientid = clientid ∧ (s.holder r).courtesy = true := by
  induction opens generalizing mine with
  | nil => simp [arbitrate] at h
  | cons r rest ih =>
    unfold arbitrate at h
    have hrest : ∀ mine', (s.arbitrate c args mine' rest).courtesyConflict = some clientid →
        ∃ r' ∈ r :: rest, (s.holder r').clientid = clientid ∧ (s.holder r').courtesy = true := fun mine' hr => by
      obtain ⟨r', hmem, hr'⟩ := ih hr
      exact ⟨r', List.mem_cons_of_mem _ hmem, hr'⟩
    split at h
    · exact hrest _ h
    · split at h
      · exact hrest _ h
      · split at h
        · split at h
          · next hcourtesy => exact ⟨r, List.mem_cons_self .., Option.some.inj h, hcourtesy⟩
          · cases h
        · exact hrest _ h

variable (cfg : Config) (s : Shared)

def CourtesyId (clientid : UInt64) : Prop :=
  ∃ c < s.clientRefs, (s.clients c).clientid = clientid ∧ (s.clients c).courtesy = true

/-- A reclaim a frame leaves behind was pending in it, or aims at a client that is a courtesy client now and
stays one in this step. -/
theorem exec_targets (hwf : s.tables.Wf cfg) (input : Input) {f g : Frame} (hf : f.Wf s.tables)
    (hg : g ∈ (s.exec cfg input f).2) {clientid : UInt64} (htarget : clientid ∈ g.targets) :
    clientid ∈ f.targets ∨ s.CourtesyId clientid ∧ (s.exec cfg input f).1.details = s.details := by
  have hflow := s.exec_flow cfg input f g hg
  have hholder : ∀ {file : FileKey} {r : StateRef}, r ∈ (s.fileAt file).opens → (s.states r).client < s.clientRefs :=
    fun hr => (hwf.records _ (hwf.files _ .kOpen _ hr).1).1
  have howner : ∀ {view : Bytes} {o : LockOwnerRec}, s.lockOwners.find view = some o → o.client < s.clientRefs :=
    fun {view o} ho => hwf.lockOwners view _ (congrArg (Option.map LockOwnerRec.client) ho)
  cases hflow with
  | scanStart => exact absurd htarget List.not_mem_nil
  | @scanNext now c due timedOut timedOut' =>
    have hsame : (s.exec cfg input (.scanDue now (c :: due) timedOut)).1.details = s.details :=
      details_of_plain cfg s input trivial
    have hstays : timedOut' = timedOut → clientid ∈ (Frame.scanDue now (c :: due) timedOut).targets :=
      fun heq => heq ▸ htarget
    simp only [exec, scanDue] at hg hsame
    split at hg
    · exact Or.inl (hstays (by simpa using hg))
    · split at hg
      · next hcourtesy =>
        split at hg
        · next hlong =>
          obtain rfl : timedOut' = timedOut ++ [(s.clients c).clientid] := by simpa using hg
          rcases List.mem_append.mp htarget with hold | hnew
          · exact Or.inl hold
          · have hid : (s.clients c).clientid = clientid := (List.mem_singleton.mp hnew).symm
            exact Or.inr ⟨⟨c, hf c (List.mem_cons_self ..), hid, hcourtesy⟩, hsame⟩
        · exact Or.inl (hstays (by simpa using hg))
      · split at hg
        · exact Or.inl (hstays (by simpa using hg))
        · simp at hg
  | scanClient | scanDone => exact Or.inl htarget
  | @scanExpire now due timedOut clientid' =>
    obtain rfl : clientid = clientid' := List.mem_singleton.mp htarget
    refine Or.inl ?_
    simp only [exec, scanDue] at hg
    split at hg
    · simpa [Frame.targets] using hg
    · repeat' split at hg
      all_goals simp at hg
  | expireSection => exact Or.inl htarget
  | @openExpire c args attempt clientid' =>
    obtain rfl : clientid = clientid' := List.mem_singleton.mp htarget
    simp only [exec, openArbitrate] at hg ⊢
    split at hg
    · next id hconflict =>
      split at hg
      · simp at hg
      · obtain rfl : clientid = id := by simpa using hg
        obtain ⟨r, hr, hid, hcourtesy⟩ := arbitrate_courtesy hconflict
        exact Or.inr ⟨⟨_, hholder hr, hid, hcourtesy⟩, rfl⟩
    · repeat' split at hg
      all_goals simp at hg
  | @lockExpire ctx before attempt conflict clientid' =>
    obtain rfl : clientid = clientid' := List.mem_singleton.mp htarget
    simp only [exec, lockConflict] at hg
    split at hg
    · simp at hg
    · next holder ho =>
      split at hg
      · next hcourtesy =>
        obtain rfl : clientid = (s.clients holder.client).clientid := by simpa using hg
        exact Or.inr ⟨⟨_, howner ho, rfl, hcourtesy.1⟩, rfl⟩
      · split at hg <;> simp at hg
  | @locktExpire args attempt conflict clientid' =>
    obtain rfl : clientid = clientid' := List.mem_singleton.mp htarget
    simp only [exec, locktConflict] at hg
    split at hg
    · simp at hg
    · next holder ho =>
      split at hg
      · next hcourtesy =>
        obtain rfl : clientid = (s.clients holder.client).clientid := by simpa using hg
        exact Or.inr ⟨⟨_, howner ho, rfl, hcourtesy.1⟩, rfl⟩
      · simp at hg
  | _ => exact absurd htarget List.not_mem_nil

end Shared

/-! ### Runs -/

/-- No request renews a client whose reclaim is under way, and client ids are left for new clients. -/
def Shared.RenewsInTime (s : Shared) (fs : List Frame) (f : Frame) : Prop :=
  s.tables.ClientIdsLeft f ∧ ∀ c ∈ s.renews f, ∀ g ∈ fs, (s.clients c).clientid ∉ g.targets

instance (s : Shared) (fs : List Frame) (f : Frame) : Decidable (s.RenewsInTime fs f) :=
  inferInstanceAs (Decidable (_ ∧ _))

/-- From outside, a client is only ever expired by force. -/
abbrev renewalsInTime : Machine.Rules Shared Frame Input where
  spawn _ _ f := f.Request ∧ f.targets = []
  step s fs _ f := s.RenewsInTime fs f

structure LeaseInv (cfg : Config) (s : Shared) (fs : List Frame) : Prop where
  live : Live cfg s fs
  indexed : s.tables.Indexed cfg
  fresh : s.tables.FreshSlots
  lapsed : ∀ c, (s.clients c).courtesy = true → (s.clients c).leaseExpiry ≤ s.now
  scans : ∀ g ∈ fs, ∀ now, g.scanTime = some now → now ≤ s.now
  aimed : ∀ g ∈ fs, ∀ clientid ∈ g.targets,
    ∃ c < s.clientRefs, (s.clients c).clientid = clientid ∧ (s.Registered cfg c → (s.clients c).courtesy = true)

theorem Follows.scanTime {u : Tables} {g : Frame} (h : Follows cfg t u f g) {now : Int}
    (hnow : g.scanTime = some now) : f.scanTime = some now ∨ f = .scanLeases := by
  cases h with
  | scanStart => exact Or.inr rfl
  | _ => first | exact Or.inl hnow | cases hnow

namespace LeaseInv

variable {cfg : Config} {s : Shared} {fs pre post : List Frame} {f : Frame}

theorem boot (cfg : Config) : LeaseInv cfg LightNfs.boot.state LightNfs.boot.frames where
  live := Live.boot cfg
  indexed := Tables.Indexed.boot cfg
  fresh := fun o c hc => absurd hc (by simp [Machine.start, Shared.tables])
  lapsed := fun c hc => absurd hc (by simp [Machine.start])
  scans := fun g hg => absurd hg List.not_mem_nil
  aimed := fun g hg => absurd hg List.not_mem_nil

theorem spawn (h : LeaseInv cfg s fs) (hf : f.Request) (hforced : f.targets = []) : LeaseInv cfg s (fs ++ [f]) := by
  refine { h with live := h.live.spawn hf, scans := fun g hg now hnow => ?_, aimed := fun g hg clientid htarget => ?_ }
  · have hnot : ¬g.Request := by cases g <;> first | exact id | cases hnow
    exact h.scans g (Frame.mem_of_spawn hf hnot hg) now hnow
  · rcases List.mem_append.mp hg with hg | hg
    · exact h.aimed g hg clientid htarget
    · rw [List.mem_singleton.mp hg, hforced] at htarget
      exact absurd htarget List.not_mem_nil

theorem aim_kept (h : LeaseInv cfg s (pre ++ f :: post)) (hrule : s.RenewsInTime (pre ++ f :: post) f) (input : Input)
    {g : Frame} (hg : g ∈ pre ++ f :: post) {clientid : UInt64} (htarget : clientid ∈ g.targets) :
    ∃ c < (s.exec cfg input f).1.clientRefs, ((s.exec cfg input f).1.clients c).clientid = clientid ∧
      ((s.exec cfg input f).1.Registered cfg c → ((s.exec cfg input f).1.clients c).courtesy = true) := by
  have hchange := s.exec_change cfg input f
  have he : s.tables.Extends (s.exec cfg input f).1.tables := .of_change hchange
  obtain ⟨c, hc, hid, haim⟩ := h.aimed g hg clientid htarget
  refine ⟨c, hc.trans_le he.clientRefs, (he.clientid c hc).trans hid, fun hreg => ?_⟩
  have hreg' : s.Registered cfg c :=
    (Tables.registered_change h.indexed h.live.tables h.fresh h.live.current hrule.1 hchange hc).1 hreg
  rcases (s.exec_effect cfg input f).courtesy_kept h.indexed h.live.tables hc (haim hreg') with hkept | hrenew | hgone
  · exact hkept
  · exact absurd (hid ▸ htarget) (hrule.2 c hrenew g hg)
  · exact absurd hreg hgone

theorem step (h : LeaseInv cfg s (pre ++ f :: post)) (hrule : s.RenewsInTime (pre ++ f :: post) f) (input : Input) :
    LeaseInv cfg (s.exec cfg input f).1 (pre ++ ((s.exec cfg input f).2 ++ post)) := by
  have hchange := s.exec_change cfg input f
  have heffect := s.exec_effect cfg input f
  have hmono : s.now ≤ (s.exec cfg input f).1.now := Details.now_mono heffect.clock
  refine
    { live := h.live.step input
      indexed := h.indexed.change h.live.tables h.live.current hrule.1 hchange
      fresh := h.fresh.change h.live.tables h.live.current hchange
      lapsed := fun c hcourtesy => ?_
      scans := fun g hg now hnow => ?_
      aimed := fun g hg clientid htarget => ?_ }
  · obtain ⟨hlease, hbefore | ⟨now, hnow, hdue⟩⟩ := heffect.courtesy_origin hcourtesy
    · exact hlease.le.trans ((h.lapsed c hbefore).trans hmono)
    · exact hlease.le.trans (hdue.trans ((h.scans f (by simp) now hnow).trans hmono))
  · rcases Machine.new_or_waiting hg with hg | hg
    · rcases (s.exec_flow cfg input f g hg).scanTime hnow with hscan | rfl
      · exact (h.scans f (by simp) now hscan).trans hmono
      · rw [List.mem_singleton.mp hg] at hnow
        exact (Option.some.inj hnow).symm.le.trans hmono
    · exact (h.scans g (Machine.mem_of_waiting hg) now hnow).trans hmono
  · rcases Machine.new_or_waiting hg with hg | hg
    · rcases s.exec_targets cfg h.live.tables input h.live.current hg htarget with hold | ⟨⟨c, hc, hid, hcourtesy⟩, hsame⟩
      · exact h.aim_kept hrule input (by simp) hold
      · have he : s.tables.Extends (s.exec cfg input f).1.tables := .of_change hchange
        exact ⟨c, hc.trans_le he.clientRefs, (he.clientid c hc).trans hid, fun _ =>
          (congrFun (congrArg Details.courtesy hsame) c).trans hcourtesy⟩
    · exact h.aim_kept hrule input (Machine.mem_of_waiting hg) htarget

end LeaseInv

/-- A reclaim for a conflict or a timeout either does nothing or takes a courtesy client, whose lease has run
out and was not renewed since, in runs in which no renewal overtakes a pending reclaim. -/
theorem only_courtesy_clients_reclaimed (cfg : Config) (events : List (Machine.Event Frame Input)) (i : Nat)
    (input : Input) (c : ClientRef) (clientid : UInt64) (reason : Reason) (rest : List Frame)
    (hrun : renewalsInTime.Permits (server cfg) boot (events ++ [Machine.Event.step i input]))
    (htask : ((server cfg).run boot events).tasks[i]? = some (.expireSection c clientid reason :: rest))
    (hreason : reason ≠ .forced) :
    let s := ((server cfg).run boot events).state
    s.exec cfg input (.expireSection c clientid reason) = (s, []) ∨
      (s.clients c).courtesy = true ∧ (s.clients c).leaseExpiry ≤ s.now := by
  intro s
  obtain ⟨hevents, -⟩ := Machine.Rules.permits_step hrun htask
  have hinv : LeaseInv cfg s ((server cfg).run boot events).frames :=
    Machine.run_invariant (fun _ _ _ h hf => h.spawn hf.1 hf.2) (fun _ _ _ _ input h hrule => h.step hrule input)
      (LeaseInv.boot cfg) hevents
  have hmem := Machine.Config.mem_frames htask
  have hclient : s.tables.Client c clientid := hinv.live.frames _ hmem
  by_cases hgone : s.byId.find (cfg.ownerShard (s.clients c).ownerId, clientid) ≠ some c ∨ (s.clients c).expired = true
  · left
    simp only [Shared.exec, Shared.expireSection]
    exact if_pos hgone
  · right
    push Not at hgone
    obtain ⟨c', hc', hid, haim⟩ := hinv.aimed _ hmem clientid (by simp [Frame.targets, hreason])
    obtain rfl : c' = c := hinv.indexed.unique c' c hc' hclient.1 (hid.trans hclient.2.symm)
    have hkey : s.idKey cfg c' = (cfg.ownerShard (s.clients c').ownerId, clientid) := by rw [Shared.idKey, hid]
    have hreg : s.Registered cfg c' := by
      rw [Shared.Registered, hkey]
      exact hgone.1
    exact ⟨haim hreg, hinv.lapsed c' (haim hreg)⟩

/-! ### A conflict with a client whose lease ran out -/

/-- A opens the file and denies writing, its lease runs out, and an OPEN of B for writing finds it a courtesy
client. -/
def courtesyConflict (file : FileKey) : List (Machine.Event Frame Input) :=
  join 0 [65] 0x100000001 ++ join 3 [66] 0x100000002 ++
    request 6 (.openState { clientid := 0x100000001, file := file, owner := [97], access := 1, deny := 2 }) 8 ++
    request 7 (.tick 91000000000) 1 ++ request 8 .scanLeases 7 ++
    request 9 (.openState { clientid := 0x100000002, file := file, owner := [98], access := 2, deny := 0 }) 4

def leaseFile : FileKey := ⟨1, ⟨[1], length_one_le⟩⟩

theorem only_courtesy_clients_reclaimed_on_conflict :
    let s := ((server {}).run boot (courtesyConflict leaseFile ++ [Machine.Event.step 9 ({} : Input)])).state
    s.exec {} {} (.expireSection 0 0x100000001 .conflict) = (s, []) ∨
      (s.clients 0).courtesy = true ∧ (s.clients 0).leaseExpiry ≤ s.now := by
  have hrun : renewalsInTime.Permits (server {}) boot (courtesyConflict leaseFile ++ [Machine.Event.step 9 ({} : Input)] ++ [Machine.Event.step 9 ({} : Input)]) := by
    decide +kernel
  have htask : ((server {}).run boot (courtesyConflict leaseFile ++ [Machine.Event.step 9 ({} : Input)])).tasks[9]? =
      some (Frame.expireSection 0 0x100000001 .conflict ::
        [.openArbitrate 1 { clientid := 0x100000002, file := leaseFile, owner := [98], access := 2, deny := 0 } 1]) := by
    decide +kernel
  exact only_courtesy_clients_reclaimed _ _ 9 {} 0 0x100000001 .conflict _ hrun htask (by decide)

/-- A renews its lease with a SEQUENCE before B's request gets to expire it: A is no courtesy client any more
and has a whole lease ahead, and is expired all the same. -/
theorem renewed_client_reclaimed :
    let events := courtesyConflict leaseFile ++
      request 10 (.sequenceBegin { id := ⟨0x100000001, 1, 0⟩, slotid := 0, seqid := 1, highest := 0 }) 2 ++
      [Machine.Event.step 9 ({} : Input)]
    let c := (server {}).run boot events
    anyRun.Permits (server {}) boot (events ++ [Machine.Event.step 9 ({} : Input)]) ∧
      c.tasks[9]?.bind List.head? = some (Frame.expireSection 0 0x100000001 .conflict) ∧
      (c.state.clients 0).courtesy = false ∧ c.state.now < (c.state.clients 0).leaseExpiry ∧
      (((server {}).run boot (events ++ [Machine.Event.step 9 ({} : Input)])).state.clients 0).expired = true := by
  intro events c
  exact ⟨by decide +kernel, by decide +kernel, by decide +kernel, by decide +kernel, by decide +kernel⟩

end LightNfs
