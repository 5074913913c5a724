import LightNfs.State.Details
import LightNfs.State.Paths
import LightNfs.State.Registry

/-!
# Recalls and the callback path

A delegation whose recall deadline has passed is revoked by `sweep_recalls`. Its holder should have been sent a
CB_RECALL by then, unless it had no usable backchannel from the start of the recall on. `send_cb` makes one attempt
on one session, which has a single callback slot: a busy slot drops the recall, and a backchannel that is bound or
lost on the way is not noticed.
-/

namespace LightNfs

namespace Callback

def delegation : Callback → Option StateRef
  | recallDeleg r _ _ => some r
  | notifyLock _ _ _ => none

theorem recall_of_delegation {cb : Callback} {r : StateRef} (h : cb.delegation = some r) :
    ∃ sid fh, cb = .recallDeleg r sid fh := by
  cases cb with
  | recallDeleg r' sid fh =>
    obtain rfl : r' = r := Option.some.inj h
    exact ⟨sid, fh, rfl⟩
  | notifyLock => exact absurd h (by simp [delegation])

def Names (r : StateRef) (other : StateOther) : Callback → Prop
  | recallDeleg r' sid _ => r' = r ∧ sid.other = other
  | notifyLock _ _ _ => False

end Callback

def Frame.carries : Frame → Option StateRef
  | recallTask r => some r
  | sendCb _ cb | sendScan cb _ | sendClaim _ cb | sendCall _ _ _ cb => cb.delegation
  | _ => none

namespace Shared

variable (s : Shared)

/-- Some session of the client has a live backchannel that was not marked down. -/
def Reachable (c : ClientRef) : Prop := ∃ id ∈ (s.clients c).sessions, (s.sessions.find id).any s.usable = true

/-- A CB_RECALL naming the delegation was handed to a backchannel of its client. -/
def Asked (r : StateRef) : Prop :=
  ∃ call ∈ s.cbCalls, call.session.clientid = (s.holder r).clientid ∧ call.callback.Names r (s.states r).other

/-- Recalled, still open, and its holder not asked. -/
def Unasked (r : StateRef) : Prop :=
  ((s.states r).recalled = true ∧ (s.states r).closed = false) ∧ ¬s.Asked r

/-- The task that asks the holder was spawned and has not handed its call over yet. -/
def OnItsWay (fs : List Frame) (r : StateRef) : Prop := r ∈ s.recallTasks ∨ ∃ f ∈ fs, f.carries = some r

/-- The delegations `sweep_recalls` finds past their deadline. -/
def due : List StateRef :=
  (s.recallWatch.filter fun r => !(s.states r).closed).filter fun r => (s.states r).recallDeadline ≤ s.now

/-- The client lists the session and its backchannel is usable. -/
def Reaches (c : ClientRef) (id : SessionId) : Prop :=
  id ∈ (s.clients c).sessions ∧ s.paths.usable id = true

theorem reachable_iff (c : ClientRef) : s.Reachable c ↔ ∃ id, s.Reaches c id := by
  simp only [Reachable, Reaches, usable_paths]

end Shared

/-! ### Runs in which a recall finds its way -/

namespace Tables

/-- The frame takes the session out of the client's list. -/
def Unlists (t : Tables) (c : ClientRef) (id : SessionId) (f : Frame) : Prop :=
  f = .destroySessionClient c id ∨ t.Retires c f

end Tables

namespace Shared

/-- A backchannel is bound, or a session created, only for a client that has been asked for every delegation under
recall, and a new session's number is not in use. -/
def BindsSettled (s : Shared) : Frame → Prop
  | .bindBackchannel id _ | .createInsert id _ => ∀ r < s.stateRefs, s.Unasked r → id.clientid ≠ (s.holder r).clientid
  | .createClient _ _ => ∀ id ∈ s.sessions.keys, id.counter ≠ s.nextSession
  | _ => True

/-- No session that a recall may still be sent on is lost. -/
def KeepsPaths (cfg : Config) (s : Shared) (fs : List Frame) (input : Input) (f : Frame) : Prop :=
  ∀ r < s.stateRefs, s.OnItsWay fs r → ∀ id ∈ (s.holder r).sessions, (s.sessions.find id).any s.usable = true →
    ¬s.Lowers cfg input id f ∧ ¬s.tables.Unlists (s.states r).client id f

/-- A recall finds the callback slot free. -/
def SlotFree (s : Shared) : Frame → Prop
  | .sendClaim id cb => cb.delegation ≠ none → (s.sessions.find id).all fun session => !session.cbInflight
  | _ => True

/-- No delegation is past its deadline before its recall task has run. -/
def SweepsSettled (s : Shared) (fs : List Frame) : Frame → Prop
  | .sweepRecalls => ∀ r ∈ s.due, ¬s.OnItsWay fs r
  | _ => True

structure Undisturbed (cfg : Config) (s : Shared) (fs : List Frame) (input : Input) (f : Frame) : Prop where
  binds : s.BindsSettled f
  keeps : s.KeepsPaths cfg fs input f
  slot : s.SlotFree f
  sweeps : s.SweepsSettled fs f

end Shared

instance (r : StateRef) (other : StateOther) (cb : Callback) : Decidable (cb.Names r other) := by
  apply @Callback.casesOn _ cb <;> intros <;> dsimp only [Callback.Names] <;> infer_instance

instance (s : Shared) (c : ClientRef) : Decidable (s.Reachable c) := by unfold Shared.Reachable; infer_instance

instance (s : Shared) (r : StateRef) : Decidable (s.Asked r) := by unfold Shared.Asked; infer_instance

instance (s : Shared) (r : StateRef) : Decidable (s.Unasked r) := by unfold Shared.Unasked; infer_instance

instance (s : Shared) (fs : List Frame) (r : StateRef) : Decidable (s.OnItsWay fs r) := by
  unfold Shared.OnItsWay; infer_instance

instance (t : Tables) (c : ClientRef) (f : Frame) : Decidable (t.Retires c f) := by
  apply @Frame.casesOn _ f <;> intros <;> dsimp only [Tables.Retires] <;> infer_instance

instance (t : Tables) (c : ClientRef) (id : SessionId) (f : Frame) : Decidable (t.Unlists c id f) := by
  unfold Tables.Unlists; infer_instance

instance (cfg : Config) (s : Shared) (input : Input) (id : SessionId) (f : Frame) :
    Decidable (s.Lowers cfg input id f) := by
  apply @Frame.casesOn _ f <;> intros <;> dsimp only [Shared.Lowers] <;> infer_instance

instance (s : Shared) (f : Frame) : Decidable (s.BindsSettled f) := by
  apply @Frame.casesOn _ f <;> intros <;> dsimp only [Shared.BindsSettled] <;> infer_instance

instance (cfg : Config) (s : Shared) (fs : List Frame) (input : Input) (f : Frame) :
    Decidable (s.KeepsPaths cfg fs input f) := by
  unfold Shared.KeepsPaths; infer_instance

instance (s : Shared) (f : Frame) : Decidable (s.SlotFree f) := by
  apply @Frame.casesOn _ f <;> intros <;> dsimp only [Shared.SlotFree] <;> infer_instance

instance (s : Shared) (fs : List Frame) (f : Frame) : Decidable (s.SweepsSettled fs f) := by
  apply @Frame.casesOn _ f <;> intros <;> dsimp only [Shared.SweepsSettled] <;> infer_instance

instance (cfg : Config) (s : Shared) (fs : List Frame) (input : Input) (f : Frame) :
    Decidable (s.Undisturbed cfg fs input f) :=
  decidable_of_iff (s.BindsSettled f ∧ s.KeepsPaths cfg fs input f ∧ s.SlotFree f ∧ s.SweepsSettled fs f)
    ⟨fun ⟨hbinds, hkeeps, hslot, hsweeps⟩ => ⟨hbinds, hkeeps, hslot, hsweeps⟩,
      fun h => ⟨h.binds, h.keeps, h.slot, h.sweeps⟩⟩

abbrev recallsUndisturbed (cfg : Config) : Machine.Rules Shared Frame Input where
  spawn _ _ f := f.Request
  step s fs input f := s.Undisturbed cfg fs input f

/-! ### What one frame does -/

namespace Tables

variable {t t' : Tables} {c : ClientRef} {f : Frame} {v : ClientView} {id : SessionId}

theorem ClientStep.listed_back (h : t.ClientStep c f v) (hid : id ∈ v.sessions) :
    id ∈ (t.clients c).sessions ∨
      (∃ args, f = .createClient c args) ∧ id.clientid = (t.clients c).clientid ∧ id.counter = t.nextSession := by
  cases h with
  | session hnew =>
    rcases List.mem_append.mp hid with hid | hid
    · exact Or.inl hid
    · rw [List.mem_singleton] at hid
      subst hid
      exact Or.inr ⟨⟨_, rfl⟩, hnew⟩
  | retired => exact absurd hid List.not_mem_nil
  | dropped => exact Or.inl (List.mem_of_mem_filter hid)
  | _ => exact Or.inl hid

theorem ClientStep.listed (h : t.ClientStep c f v) (hid : id ∈ (t.clients c).sessions) (hkept : ¬t.Unlists c id f) :
    id ∈ v.sessions := by
  cases h with
  | session => exact List.mem_append_left _ hid
  | retired hf => exact absurd (Or.inr hf) hkept
  | @dropped id' =>
    refine List.mem_filter.mpr ⟨hid, ?_⟩
    have hne : id ≠ id' := by
      rintro rfl
      exact hkept (Or.inl rfl)
    simpa using hne
  | _ => exact hid

theorem watch_back {cfg : Config} (h : Change cfg t f t') {r : StateRef} (hr : r ∈ t'.recallWatch) :
    r ∈ t.recallWatch ∨ f = .startRecall r := by
  cases h with
  | recallFirst =>
    rcases List.mem_append.mp hr with hr | hr
    · exact Or.inl hr
    · rw [List.mem_singleton] at hr
      exact Or.inr (hr ▸ rfl)
  | sweep hwatch => exact Or.inl (hwatch r hr)
  | exchangeFull hu => exact Or.inl ((OnlyClients.exchanged hu).eq_of_read Tables.recallWatch (fun _ => rfl) ▸ hr)
  | exchangeNew hu => exact Or.inl ((OnlyClients.exchanged hu).eq_of_read Tables.recallWatch (fun _ => rfl) ▸ hr)
  | createFirst =>
    exact Or.inl ((OnlyClients.confirmIncarnation cfg t _).eq_of_read Tables.recallWatch (fun _ => rfl) ▸ hr)
  | destroyClient | scanLapsed =>
    exact Or.inl ((OnlyClients.remove cfg t _).eq_of_read Tables.recallWatch (fun _ => rfl) ▸ hr)
  | unpersist => exact Or.inl ((OnlyClients.unpersist cfg t _).eq_of_read Tables.recallWatch (fun _ => rfl) ▸ hr)
  | @dropFromFile r' =>
    obtain ⟨files, heq⟩ := t.dropFromFile_eq r'
    rw [heq] at hr
    exact Or.inl hr
  | _ => exact Or.inl hr

end Tables

theorem Shared.sendClaim_next {cfg : Config} {s : Shared} {id : SessionId} {cb : Callback} {g : Frame}
    (hg : g ∈ (s.sendClaim cfg id cb).2) :
    ∃ slotSeq chan, g = .sendCall id slotSeq chan cb ∧ (s.paths.usable id = true → s.paths.On id chan) := by
  unfold sendClaim at hg
  split at hg
  · exact absurd hg List.not_mem_nil
  · next session hheld =>
    split at hg
    · exact absurd hg List.not_mem_nil
    · next chan hchan =>
      repeat' split at hg
      · exact absurd hg List.not_mem_nil
      · exact absurd hg List.not_mem_nil
      · exact absurd hg List.not_mem_nil
      · refine ⟨_, chan, List.mem_singleton.mp hg, fun hus => ?_⟩
        rw [usable_paths, Option.any_eq_true] at hus
        obtain ⟨found, hfind, -⟩ := hus
        obtain rfl : found = session := by simpa [heldSession, hfind] using hheld
        exact ⟨found.path, by simp [paths, hfind], hchan⟩

theorem Follows.carries {cfg : Config} {t u : Tables} {f g : Frame} (h : Follows cfg t u f g) {r : StateRef}
    (hg : g.carries = some r) : f = .runRecall ∨ f.carries = some r := by
  cases h with
  | recallRun => exact Or.inl rfl
  | recallSend | sendScan | sendNext | sendFound | sendCall => exact Or.inr hg
  | _ => exact absurd hg (by simp [Frame.carries, Callback.delegation])

/-- Where a pending recall stands. While its holder has not been asked, the sessions still to be tried are the
client's own and the one that was picked stays usable. -/
def Frame.Stage (s : Shared) : Frame → Prop
  | sendCb c (.recallDeleg r sid _) => c = (s.states r).client ∧ sid.other = (s.states r).other
  | sendScan (.recallDeleg r sid _) ids =>
    sid.other = (s.states r).other ∧ (∀ id ∈ ids, id.clientid = (s.holder r).clientid) ∧
      (s.Unasked r → (∀ id ∈ ids, s.paths.usable id = true → id ∈ (s.holder r).sessions) ∧
        (s.Reachable (s.states r).client → ∃ id ∈ ids, s.paths.usable id = true))
  | sendClaim id (.recallDeleg r sid _) =>
    sid.other = (s.states r).other ∧ id.clientid = (s.holder r).clientid ∧
      (s.Unasked r → s.Reaches (s.states r).client id)
  | sendCall id _ chan (.recallDeleg r sid _) =>
    sid.other = (s.states r).other ∧ id.clientid = (s.holder r).clientid ∧
      (s.Unasked r → s.Reaches (s.states r).client id ∧ s.paths.On id chan)
  | _ => True

structure RecallInv (cfg : Config) (s : Shared) (fs : List Frame) : Prop where
  live : Live cfg s fs
  mine : ∀ c < s.clientRefs, ∀ id ∈ (s.clients c).sessions, id.clientid = (s.clients c).clientid
  known : ∀ r, (s.states r).recalled = true → r < s.stateRefs
  watched : ∀ r ∈ s.recallWatch, (s.states r).recalled = true
  recalled : ∀ r, s.OnItsWay fs r → (s.states r).recalled = true
  stages : ∀ f ∈ fs, f.Stage s
  heard : ∀ r, s.Unasked r → s.OnItsWay fs r ∨ ¬s.Reachable (s.states r).client

/-! ### One step -/

namespace RecallInv

variable {cfg : Config} {s : Shared} {fs pre post : List Frame} {f : Frame} {input : Input} {r : StateRef}

/-! ### What stays -/

variable {id : SessionId} {g : Frame}

theorem client_lt (h : RecallInv cfg s fs) (hr : r < s.stateRefs) : (s.states r).client < s.clientRefs :=
  (h.live.tables.records r hr).1

theorem same (h : RecallInv cfg s fs) (hr : r < s.stateRefs) (input : Input) (f : Frame) :
    ((s.exec cfg input f).1.states r).client = (s.states r).client ∧
      ((s.exec cfg input f).1.states r).other = (s.states r).other ∧
      ((s.exec cfg input f).1.holder r).clientid = (s.holder r).clientid := by
  have he : s.tables.Extends (s.exec cfg input f).1.tables := .of_change (s.exec_change cfg input f)
  have hclient : ((s.exec cfg input f).1.states r).client = (s.states r).client := he.client hr
  refine ⟨hclient, he.other hr, ?_⟩
  rw [Shared.holder, hclient]
  exact he.clientid _ (h.client_lt hr)

theorem asked (h : RecallInv cfg s fs) (hr : r < s.stateRefs) (input : Input) (f : Frame) (hasked : s.Asked r) :
    (s.exec cfg input f).1.Asked r := by
  obtain ⟨call, hcall, hid, hnames⟩ := hasked
  obtain ⟨-, hother, hclientid⟩ := h.same hr input f
  exact ⟨call, (s.exec_pathStep cfg input f).calls hcall, hid.trans hclientid.symm, hother.symm ▸ hnames⟩

theorem closed (cfg : Config) (hr : r < s.stateRefs) (input : Input) (f : Frame) (hclosed : (s.states r).closed = true) :
    ((s.exec cfg input f).1.states r).closed = true :=
  Tables.Extends.closed (.of_change (s.exec_change cfg input f)) hr hclosed

theorem recalled_kept (hr : r < s.stateRefs) (input : Input) (f : Frame) (hrec : (s.states r).recalled = true) :
    ((s.exec cfg input f).1.states r).recalled = true :=
  (s.exec_effect cfg input f).recalled r hr hrec

theorem recalled_startRecall (cfg : Config) (s : Shared) (r : StateRef) :
    ((s.startRecall cfg r).states r).recalled = true := by
  unfold Shared.startRecall
  split
  · next hrec => exact hrec
  · simp [Shared.modState]

theorem unasked_back (h : RecallInv cfg s fs) (hrec : (s.states r).recalled = true)
    (hun : (s.exec cfg input f).1.Unasked r) : s.Unasked r := by
  have hr := h.known r hrec
  refine ⟨⟨hrec, Bool.eq_false_iff.mpr fun hclosed => ?_⟩, fun hasked => hun.2 (h.asked hr input f hasked)⟩
  have hstill := closed cfg hr input f hclosed
  simp [hun.1.2] at hstill

/-! ### Backchannels of a client that has not been asked -/

theorem clientStep (h : RecallInv cfg s (pre ++ f :: post)) (hr : r < s.stateRefs) (input : Input) :
    s.tables.ClientStep (s.states r).client f ((s.exec cfg input f).1.tables.clients (s.states r).client) :=
  Tables.clientStep_change h.live.current (s.exec_change cfg input f) (h.client_lt hr)

theorem not_binds (h : RecallInv cfg s (pre ++ f :: post)) (hrule : s.Undisturbed cfg (pre ++ f :: post) input f)
    (hun : s.Unasked r) (hid : id.clientid = (s.holder r).clientid) : ¬f.Binds id := by
  intro hbinds
  have hbound := hrule.binds
  cases f with
  | bindBackchannel id' chan | createInsert id' session =>
    obtain rfl : id' = id := hbinds
    exact hbound r (h.known r hun.1.1) hun hid
  | _ => exact hbinds.elim

theorem usable_back (h : RecallInv cfg s (pre ++ f :: post)) (hrule : s.Undisturbed cfg (pre ++ f :: post) input f)
    (hun : s.Unasked r) (hid : id.clientid = (s.holder r).clientid)
    (hus : (s.exec cfg input f).1.paths.usable id = true) : s.paths.usable id = true :=
  ((s.exec_pathStep cfg input f).gained hus).resolve_right (h.not_binds hrule hun hid)

theorem reaches_back (h : RecallInv cfg s (pre ++ f :: post)) (hrule : s.Undisturbed cfg (pre ++ f :: post) input f)
    (hun : s.Unasked r) (hid : (s.exec cfg input f).1.Reaches (s.states r).client id) :
    s.Reaches (s.states r).client id := by
  have hr := h.known r hun.1.1
  rcases (h.clientStep hr input).listed_back hid.1 with hlisted | ⟨⟨args, rfl⟩, hclientid, hcounter⟩
  · exact ⟨hlisted, h.usable_back hrule hun (h.mine _ (h.client_lt hr) id hlisted) hid.2⟩
  · have hus := h.usable_back hrule hun hclientid hid.2
    rw [Shared.usable_paths, Option.any_eq_true] at hus
    obtain ⟨session, hfind, -⟩ := hus
    exact absurd hcounter (hrule.binds id (Table.mem_keys_of_find hfind))

theorem undisturbed (h : RecallInv cfg s (pre ++ f :: post)) (hrule : s.Undisturbed cfg (pre ++ f :: post) input f)
    (hway : s.OnItsWay (pre ++ f :: post) r) (hun : s.Unasked r)
    (hid : s.Reaches (s.states r).client id) :
    ¬f.Binds id ∧ ¬s.Lowers cfg input id f ∧ ¬s.tables.Unlists (s.states r).client id f := by
  have hr := h.known r hun.1.1
  have hus := hid.2
  rw [Shared.usable_paths] at hus
  exact ⟨h.not_binds hrule hun (h.mine _ (h.client_lt hr) id hid.1), hrule.keeps r hr hway id hid.1 hus⟩

theorem reaches_kept (h : RecallInv cfg s (pre ++ f :: post)) (hrule : s.Undisturbed cfg (pre ++ f :: post) input f)
    (hway : s.OnItsWay (pre ++ f :: post) r) (hun : s.Unasked r)
    (hid : s.Reaches (s.states r).client id) : (s.exec cfg input f).1.Reaches (s.states r).client id := by
  obtain ⟨hbinds, hlowers, hunlists⟩ := h.undisturbed hrule hway hun hid
  exact ⟨(h.clientStep (h.known r hun.1.1) input).listed hid.1 hunlists,
    (s.exec_pathStep cfg input f).kept hid.2 hbinds hlowers⟩

theorem reachable_back (h : RecallInv cfg s (pre ++ f :: post))
    (hrule : s.Undisturbed cfg (pre ++ f :: post) input f) (hun : s.Unasked r)
    (hreach : (s.exec cfg input f).1.Reachable ((s.exec cfg input f).1.states r).client) :
    s.Reachable (s.states r).client := by
  rw [(h.same (h.known r hun.1.1) input f).1, Shared.reachable_iff] at hreach
  obtain ⟨id, hid⟩ := hreach
  exact (s.reachable_iff _).mpr ⟨id, h.reaches_back hrule hun hid⟩

theorem reachable_kept (h : RecallInv cfg s (pre ++ f :: post))
    (hrule : s.Undisturbed cfg (pre ++ f :: post) input f) (hway : s.OnItsWay (pre ++ f :: post) r)
    (hun : s.Unasked r) (hreach : s.Reachable (s.states r).client) :
    (s.exec cfg input f).1.Reachable ((s.exec cfg input f).1.states r).client := by
  obtain ⟨id, hid⟩ := (s.reachable_iff _).mp hreach
  rw [(h.same (h.known r hun.1.1) input f).1]
  exact (Shared.reachable_iff _ _).mpr ⟨id, h.reaches_kept hrule hway hun hid⟩

/-! ### Where a recall stands -/

theorem onItsWay_of_mem (hg : g ∈ fs) (hcarries : g.carries = some r) : s.OnItsWay fs r :=
  Or.inr ⟨g, hg, hcarries⟩

theorem stage_of_not_carries (hg : g.carries = none) : g.Stage s := by
  cases g with
  | sendCb c cb | sendScan cb ids | sendClaim id cb | sendCall id slotSeq chan cb =>
    cases cb with
    | recallDeleg r sid fh => exact absurd hg (by simp [Frame.carries, Callback.delegation])
    | notifyLock clientid owner fh => exact trivial
  | _ => exact trivial

theorem stage_kept (h : RecallInv cfg s (pre ++ f :: post)) (hrule : s.Undisturbed cfg (pre ++ f :: post) input f)
    (hg : g ∈ pre ++ f :: post) : g.Stage (s.exec cfg input f).1 := by
  have hstage := h.stages g hg
  -- the recall the frame carries is on its way, so what its stage says is protected
  have hfacts : ∀ r, g.carries = some r → s.OnItsWay (pre ++ f :: post) r ∧ r < s.stateRefs ∧
      ((s.exec cfg input f).1.Unasked r → s.Unasked r) := fun r hr =>
    have hway := onItsWay_of_mem hg hr
    ⟨hway, h.known r (h.recalled r hway), h.unasked_back (h.recalled r hway)⟩
  cases g with
  | sendCb c cb =>
    cases cb with
    | notifyLock clientid owner fh => exact trivial
    | recallDeleg r sid fh =>
      obtain ⟨-, hr, -⟩ := hfacts r rfl
      obtain ⟨hclient, hother, -⟩ := h.same hr input f
      exact ⟨hstage.1.trans hclient.symm, hstage.2.trans hother.symm⟩
  | sendScan cb ids =>
    cases cb with
    | notifyLock clientid owner fh => exact trivial
    | recallDeleg r sid fh =>
      obtain ⟨hway, hr, hback⟩ := hfacts r rfl
      obtain ⟨hclient, hother, hclientid⟩ := h.same hr input f
      obtain ⟨hsid, hids, hleft⟩ := hstage
      refine ⟨hsid.trans hother.symm, fun id hid => (hids id hid).trans hclientid.symm, fun hun => ?_⟩
      have hun := hback hun
      obtain ⟨hlisted, hfound⟩ := hleft hun
      have hreaches : ∀ id ∈ ids, s.paths.usable id = true → (s.exec cfg input f).1.Reaches (s.states r).client id :=
        fun id hid hus => h.reaches_kept hrule hway hun ⟨hlisted id hid hus, hus⟩
      refine ⟨fun id hid hus => ?_, fun hreach => ?_⟩
      · rw [Shared.holder, hclient]
        exact (hreaches id hid (h.usable_back hrule hun (hids id hid) hus)).1
      · obtain ⟨id, hid, hus⟩ := hfound (h.reachable_back hrule hun hreach)
        exact ⟨id, hid, (hreaches id hid hus).2⟩
  | sendClaim id cb =>
    cases cb with
    | notifyLock clientid owner fh => exact trivial
    | recallDeleg r sid fh =>
      obtain ⟨hway, hr, hback⟩ := hfacts r rfl
      obtain ⟨hclient, hother, hclientid⟩ := h.same hr input f
      obtain ⟨hsid, hid, hreaches⟩ := hstage
      refine ⟨hsid.trans hother.symm, hid.trans hclientid.symm, fun hun => ?_⟩
      have hun := hback hun
      rw [hclient]
      exact h.reaches_kept hrule hway hun (hreaches hun)
  | sendCall id slotSeq chan cb =>
    cases cb with
    | notifyLock clientid owner fh => exact trivial
    | recallDeleg r sid fh =>
      obtain ⟨hway, hr, hback⟩ := hfacts r rfl
      obtain ⟨hclient, hother, hclientid⟩ := h.same hr input f
      obtain ⟨hsid, hid, hreaches⟩ := hstage
      refine ⟨hsid.trans hother.symm, hid.trans hclientid.symm, fun hun => ?_⟩
      have hun := hback hun
      obtain ⟨hbinds, hlowers, -⟩ := h.undisturbed hrule hway hun (hreaches hun).1
      rw [hclient]
      exact ⟨h.reaches_kept hrule hway hun (hreaches hun).1,
        (s.exec_pathStep cfg input f).on_kept (hreaches hun).2 hbinds hlowers⟩
  | _ => exact trivial

theorem carried (h : RecallInv cfg s (pre ++ f :: post)) (hrule : s.Undisturbed cfg (pre ++ f :: post) input f)
    (hf : f.carries = some r) (hun : s.Unasked r) (hreach : s.Reachable (s.states r).client) :
    (∃ g ∈ (s.exec cfg input f).2, g.carries = some r) ∨ (s.exec cfg input f).1.Asked r := by
  have hstage := h.stages f (by simp)
  cases f with
  | recallTask r' => exact Or.inl ⟨_, List.mem_singleton_self _, hf⟩
  | sendCb c cb => exact Or.inl ⟨_, List.mem_singleton_self _, hf⟩
  | sendScan cb ids =>
    obtain ⟨sid, fh, rfl⟩ := Callback.recall_of_delegation hf
    obtain ⟨id, hid, -⟩ := (hstage.2.2 hun).2 hreach
    cases ids with
    | nil => exact absurd hid List.not_mem_nil
    | cons id' rest =>
      simp only [Shared.exec, Shared.sendScan]
      split
      · exact Or.inl ⟨_, List.mem_singleton_self _, rfl⟩
      · exact Or.inl ⟨_, List.mem_singleton_self _, rfl⟩
  | sendClaim id cb =>
    obtain ⟨sid, fh, rfl⟩ := Callback.recall_of_delegation hf
    have hus := (hstage.2.2 hun).2
    rw [Shared.usable_paths, Option.any_eq_true] at hus
    obtain ⟨session, hfind, hus⟩ := hus
    have hfree : session.cbInflight = false := by
      have hslot := hrule.slot (by simp [Callback.delegation])
      rw [hfind] at hslot
      simpa using hslot
    obtain ⟨chan, hchan⟩ : ∃ chan, session.cbChan = some chan := by
      simp only [Shared.usable, Bool.and_eq_true, Option.any_eq_true] at hus
      obtain ⟨⟨chan, hchan, -⟩, -⟩ := hus
      exact ⟨chan, hchan⟩
    refine Or.inl ⟨.sendCall id (session.cbSeq + 1) chan (.recallDeleg r sid fh), ?_, rfl⟩
    simp [Shared.exec, Shared.sendClaim, Shared.heldSession, hfind, hchan, hus, hfree]
  | sendCall id slotSeq chan cb =>
    obtain ⟨sid, fh, rfl⟩ := Callback.recall_of_delegation hf
    obtain ⟨hsid, hid, hstays⟩ := hstage
    obtain ⟨⟨-, hus⟩, path, hpath, hchan⟩ := hstays hun
    have halive : s.alive chan = true := by
      rw [Paths.usable, hpath] at hus
      simp only [Option.any_some, Paths.live, hchan, Bool.and_eq_true] at hus
      exact hus.1
    simp only [Shared.exec, Shared.sendCall, halive, if_true]
    exact Or.inr ⟨_, List.mem_append_right _ (List.mem_singleton_self _), hid, rfl, hsid⟩
  | _ => exact absurd hf (by simp [Frame.carries])

theorem stage_new (h : RecallInv cfg s (pre ++ f :: post)) (hrule : s.Undisturbed cfg (pre ++ f :: post) input f)
    (hg : g ∈ (s.exec cfg input f).2) : g.Stage (s.exec cfg input f).1 := by
  cases hcarries : g.carries with
  | none => exact stage_of_not_carries hcarries
  | some r =>
  rcases (s.exec_flow cfg input f g hg).carries hcarries with rfl | hf
  · simp only [Shared.exec, Shared.runRecall] at hg
    split at hg
    · exact absurd hg List.not_mem_nil
    · rw [List.mem_singleton] at hg
      subst hg
      exact trivial
  · have hstage := h.stages f (by simp)
    have hway : s.OnItsWay (pre ++ f :: post) r := onItsWay_of_mem (by simp) hf
    have hr := h.known r (h.recalled r hway)
    cases f with
    | recallTask r' =>
      obtain rfl := List.mem_singleton.mp hg
      exact ⟨rfl, rfl⟩
    | sendCb c cb =>
      obtain rfl := List.mem_singleton.mp hg
      obtain ⟨sid, fh, rfl⟩ := Callback.recall_of_delegation hf
      obtain ⟨rfl, hsid⟩ := hstage
      refine ⟨hsid, h.mine _ (h.client_lt hr), fun _ => ⟨fun _ hid _ => hid, ?_⟩⟩
      rintro ⟨id, hid, hus⟩
      exact ⟨id, hid, (s.usable_paths id).trans hus⟩
    | sendScan cb ids =>
      obtain ⟨sid, fh, rfl⟩ := Callback.recall_of_delegation hf
      obtain ⟨hsid, hids, hleft⟩ := hstage
      cases ids with
      | nil => exact absurd hg List.not_mem_nil
      | cons id rest =>
        simp only [Shared.exec, Shared.sendScan] at hg
        split at hg
        · next hus =>
          obtain rfl := List.mem_singleton.mp hg
          rw [← Shared.usable_paths] at hus
          exact ⟨hsid, hids id (List.mem_cons_self ..), fun hun =>
            ⟨(hleft hun).1 id (List.mem_cons_self ..) hus, hus⟩⟩
        · next hdown =>
          obtain rfl := List.mem_singleton.mp hg
          rw [← Shared.usable_paths] at hdown
          refine ⟨hsid, fun id' hid' => hids id' (List.mem_cons_of_mem _ hid'), fun hun =>
            ⟨fun id' hid' => (hleft hun).1 id' (List.mem_cons_of_mem _ hid'), fun hreach => ?_⟩⟩
          obtain ⟨id', hid', hus⟩ := (hleft hun).2 hreach
          rcases List.mem_cons.mp hid' with rfl | hid'
          · exact absurd hus hdown
          · exact ⟨id', hid', hus⟩
    | sendClaim id cb =>
      obtain ⟨sid, fh, rfl⟩ := Callback.recall_of_delegation hf
      obtain ⟨hclient, hother, hclientid⟩ := h.same hr input (.sendClaim id (.recallDeleg r sid fh))
      obtain ⟨hsid, hid, hreaches⟩ := hstage
      obtain ⟨slotSeq, chan, rfl, hchan⟩ := Shared.sendClaim_next hg
      refine ⟨hsid.trans hother.symm, hid.trans hclientid.symm, fun hun => ?_⟩
      have hun := h.unasked_back (h.recalled r hway) hun
      obtain ⟨hbinds, hlowers, -⟩ := h.undisturbed hrule hway hun (hreaches hun)
      rw [hclient]
      exact ⟨h.reaches_kept hrule hway hun (hreaches hun),
        (s.exec_pathStep cfg input _).on_kept (hchan (hreaches hun).2) hbinds hlowers⟩
    | sendCall id slotSeq chan cb =>
      simp only [Shared.exec, Shared.sendCall] at hg
      split at hg
      · obtain rfl := List.mem_singleton.mp hg
        exact trivial
      · obtain rfl := List.mem_singleton.mp hg
        exact trivial
    | _ => exact absurd hf (by simp [Frame.carries])

theorem onItsWay_step (h : RecallInv cfg s (pre ++ f :: post)) (hrule : s.Undisturbed cfg (pre ++ f :: post) input f)
    (hway : s.OnItsWay (pre ++ f :: post) r) (hun : s.Unasked r) (hreach : s.Reachable (s.states r).client) :
    (s.exec cfg input f).1.OnItsWay (pre ++ ((s.exec cfg input f).2 ++ post)) r ∨ (s.exec cfg input f).1.Asked r := by
  rcases hway with hr | ⟨g, hg, hcarries⟩
  · rcases (s.exec_pathStep cfg input f).tasks_kept hr with hr | ⟨rfl, rest, htasks⟩
    · exact Or.inl (Or.inl hr)
    · refine Or.inl (onItsWay_of_mem (g := .recallTask r) ?_ rfl)
      refine Machine.mem_step_of_next ?_
      simp [Shared.exec, Shared.runRecall, htasks]
  · by_cases hgf : g = f
    · subst hgf
      refine (h.carried hrule hcarries hun hreach).imp_left ?_
      rintro ⟨g', hg', hc⟩
      exact onItsWay_of_mem (Machine.mem_step_of_next hg') hc
    · exact Or.inl (onItsWay_of_mem (Machine.mem_step_of_ne _ hg hgf) hcarries)

theorem onItsWay_back (h : (s.exec cfg input f).1.OnItsWay (pre ++ ((s.exec cfg input f).2 ++ post)) r) :
    s.OnItsWay (pre ++ f :: post) r ∨ f = .startRecall r ∧ (s.states r).recalled = false := by
  rcases h with hr | ⟨g, hg, hcarries⟩
  · exact ((s.exec_pathStep cfg input f).tasks_new hr).imp_left Or.inl
  · refine Or.inl ?_
    rcases Machine.new_or_waiting hg with hnew | hold
    · rcases (s.exec_flow cfg input f g hnew).carries hcarries with rfl | hf
      · simp only [Shared.exec, Shared.runRecall] at hnew
        split at hnew
        · exact absurd hnew List.not_mem_nil
        · next r' rest htasks =>
          rw [List.mem_singleton] at hnew
          subst hnew
          obtain rfl : r' = r := Option.some.inj hcarries
          exact Or.inl (htasks ▸ List.mem_cons_self ..)
      · exact onItsWay_of_mem (by simp) hf
    · exact onItsWay_of_mem (Machine.mem_of_waiting hold) hcarries

theorem mine_step (h : RecallInv cfg s (pre ++ f :: post)) (input : Input) (c : ClientRef)
    (hc : c < (s.exec cfg input f).1.clientRefs) (id : SessionId) (hid : id ∈ ((s.exec cfg input f).1.clients c).sessions) :
    id.clientid = ((s.exec cfg input f).1.clients c).clientid := by
  have hchange := s.exec_change cfg input f
  by_cases hlt : c < s.clientRefs
  · have hsame : ((s.exec cfg input f).1.clients c).clientid = (s.clients c).clientid :=
      Tables.Extends.clientid (.of_change hchange) c hlt
    rw [hsame]
    rcases (Tables.clientStep_change h.live.current hchange hlt).listed_back hid with hid | ⟨-, hclientid, -⟩
    · exact h.mine c hlt id hid
    · exact hclientid
  · have hnone : ((s.exec cfg input f).1.clients c).sessions = [] := Tables.sessions_new hchange hlt hc
    exact absurd hid (hnone ▸ List.not_mem_nil)

theorem heard_step (h : RecallInv cfg s (pre ++ f :: post)) (hrule : s.Undisturbed cfg (pre ++ f :: post) input f)
    (hun : (s.exec cfg input f).1.Unasked r) :
    (s.exec cfg input f).1.OnItsWay (pre ++ ((s.exec cfg input f).2 ++ post)) r ∨
      ¬(s.exec cfg input f).1.Reachable ((s.exec cfg input f).1.states r).client := by
  rcases Bool.eq_false_or_eq_true (s.states r).recalled with hrec | hnew
  · have hun' := h.unasked_back hrec hun
    by_cases hreach : s.Reachable (s.states r).client
    · have hway := (h.heard r hun').resolve_right (not_not_intro hreach)
      exact Or.inl ((h.onItsWay_step hrule hway hun' hreach).resolve_right hun.2)
    · exact Or.inr fun hreach' => hreach (h.reachable_back hrule hun' hreach')
  · rcases (s.exec_effect cfg input f).recalled_back hun.1.1 with hold | rfl
    · exact absurd hold (by simpa [Shared.details] using hnew)
    · refine Or.inl (Or.inl ?_)
      simp [Shared.exec, Shared.startRecall, hnew, Shared.modState]

theorem step (h : RecallInv cfg s (pre ++ f :: post)) (hrule : s.Undisturbed cfg (pre ++ f :: post) input f) :
    RecallInv cfg (s.exec cfg input f).1 (pre ++ ((s.exec cfg input f).2 ++ post)) := by
  have hrefs : s.stateRefs ≤ (s.exec cfg input f).1.stateRefs :=
    Tables.Extends.stateRefs (.of_change (s.exec_change cfg input f))
  have hstart : ∀ {r}, f = .startRecall r → r < s.stateRefs ∧ ((s.exec cfg input f).1.states r).recalled = true := by
    rintro r rfl
    exact ⟨h.live.current.1, recalled_startRecall cfg s r⟩
  have hkept : ∀ {r}, (s.states r).recalled = true → ((s.exec cfg input f).1.states r).recalled = true :=
    fun hrec => recalled_kept (h.known _ hrec) input f hrec
  refine ⟨h.live.step input, h.mine_step input, fun r hrec => ?_, fun r hr => ?_, fun r hway => ?_, fun g hg => ?_,
    fun r hun => h.heard_step hrule hun⟩
  · rcases (s.exec_effect cfg input f).recalled_back hrec with hold | hf
    · exact (h.known r hold).trans_le hrefs
    · exact (hstart hf).1.trans_le hrefs
  · rcases Tables.watch_back (s.exec_change cfg input f) hr with hold | hf
    · exact hkept (h.watched r hold)
    · exact (hstart hf).2
  · rcases onItsWay_back hway with hold | ⟨hf, -⟩
    · exact hkept (h.recalled r hold)
    · exact (hstart hf).2
  · rcases Machine.new_or_waiting hg with hg | hg
    · exact h.stage_new hrule hg
    · exact h.stage_kept hrule (Machine.mem_of_waiting hg)

theorem boot (cfg : Config) : RecallInv cfg LightNfs.boot.state LightNfs.boot.frames where
  live := Live.boot cfg
  mine c hc := absurd hc (Nat.not_lt_zero c)
  known _ hrec := absurd hrec (by simp [Machine.start, default])
  watched _ hr := absurd hr List.not_mem_nil
  recalled _ hway := by
    rcases hway with hr | ⟨f, hf, -⟩
    · exact absurd hr List.not_mem_nil
    · exact absurd hf List.not_mem_nil
  stages _ hf := absurd hf List.not_mem_nil
  heard _ hun := absurd hun.1.1 (by simp [Machine.start, default])

theorem carries_of_request (hf : f.Request) : f.carries = none := by
  cases f <;> first | rfl | exact hf.elim

theorem onItsWay_spawn (hf : f.Request) : s.OnItsWay (fs ++ [f]) r ↔ s.OnItsWay fs r := by
  simp only [Shared.OnItsWay, List.mem_append, List.mem_singleton]
  refine or_congr_right ⟨?_, fun ⟨g, hg, hc⟩ => ⟨g, Or.inl hg, hc⟩⟩
  rintro ⟨g, hg | rfl, hc⟩
  · exact ⟨g, hg, hc⟩
  · simp [carries_of_request hf] at hc

theorem spawn (h : RecallInv cfg s fs) (hf : f.Request) : RecallInv cfg s (fs ++ [f]) where
  live := h.live.spawn hf
  mine := h.mine
  known := h.known
  watched := h.watched
  recalled r hway := h.recalled r ((onItsWay_spawn hf).mp hway)
  stages g hg := by
    rcases List.mem_append.mp hg with hg | hg
    · exact h.stages g hg
    · obtain rfl := List.mem_singleton.mp hg
      exact stage_of_not_carries (carries_of_request hf)
  heard r hun := (h.heard r hun).imp_left (onItsWay_spawn hf).mpr

end RecallInv

/-! ### From one moment to a later one -/

/-- Of a delegation whose holder could be reached while it was under recall. -/
structure Pursued (cfg : Config) (r : StateRef) (s : Shared) (fs : List Frame) : Prop where
  inv : RecallInv cfg s fs
  recalled : (s.states r).recalled = true
  outcome : s.Asked r ∨ (s.states r).closed = true ∨ s.OnItsWay fs r ∧ s.Reachable (s.states r).client

namespace Pursued

variable {cfg : Config} {s : Shared} {fs pre post : List Frame} {f : Frame} {input : Input} {r : StateRef}

theorem spawn (h : Pursued cfg r s fs) (hf : f.Request) : Pursued cfg r s (fs ++ [f]) where
  inv := h.inv.spawn hf
  recalled := h.recalled
  outcome := h.outcome.imp_right (Or.imp_right fun ⟨hway, hreach⟩ =>
    ⟨(RecallInv.onItsWay_spawn hf).mpr hway, hreach⟩)

theorem step (h : Pursued cfg r s (pre ++ f :: post)) (hrule : s.Undisturbed cfg (pre ++ f :: post) input f) :
    Pursued cfg r (s.exec cfg input f).1 (pre ++ ((s.exec cfg input f).2 ++ post)) := by
  have hr := h.inv.known r h.recalled
  refine ⟨h.inv.step hrule, RecallInv.recalled_kept hr input f h.recalled, ?_⟩
  by_cases hasked : s.Asked r
  · exact Or.inl (h.inv.asked hr input f hasked)
  rcases Bool.eq_false_or_eq_true (s.states r).closed with hclosed | hopen
  · exact Or.inr (Or.inl (RecallInv.closed cfg hr input f hclosed))
  · have hun : s.Unasked r := ⟨⟨h.recalled, hopen⟩, hasked⟩
    rcases h.outcome with hasked' | hclosed | ⟨hway, hreach⟩
    · exact absurd hasked' hasked
    · exact absurd hclosed (by simp [hopen])
    · rcases h.inv.onItsWay_step hrule hway hun hreach with hway' | hasked'
      · exact Or.inr (Or.inr ⟨hway', h.inv.reachable_kept hrule hway hun hreach⟩)
      · exact Or.inl hasked'

theorem run {c : Machine.Config Shared Frame} {es : List (Machine.Event Frame Input)} (h : Pursued cfg r c.state c.frames)
    (hes : (recallsUndisturbed cfg).Permits (server cfg) c es) :
    Pursued cfg r ((server cfg).run c es).state ((server cfg).run c es).frames :=
  Machine.run_invariant (fun _ _ _ h hf => h.spawn hf) (fun _ _ _ _ _ h hrule => h.step hrule) h hes

end Pursued

/-- Of a delegation whose recall task has done what it does. -/
structure Attempted (cfg : Config) (r : StateRef) (s : Shared) (fs : List Frame) : Prop where
  inv : RecallInv cfg s fs
  recalled : (s.states r).recalled = true
  done : ¬s.OnItsWay fs r

namespace Attempted

variable {cfg : Config} {s : Shared} {fs pre post : List Frame} {f : Frame} {input : Input} {r : StateRef}

theorem spawn (h : Attempted cfg r s fs) (hf : f.Request) : Attempted cfg r s (fs ++ [f]) where
  inv := h.inv.spawn hf
  recalled := h.recalled
  done := fun hway => h.done ((RecallInv.onItsWay_spawn hf).mp hway)

theorem step (h : Attempted cfg r s (pre ++ f :: post)) (hrule : s.Undisturbed cfg (pre ++ f :: post) input f) :
    Attempted cfg r (s.exec cfg input f).1 (pre ++ ((s.exec cfg input f).2 ++ post)) where
  inv := h.inv.step hrule
  recalled := RecallInv.recalled_kept (h.inv.known r h.recalled) input f h.recalled
  done := fun hway => by
    rcases RecallInv.onItsWay_back hway with hold | ⟨-, hnew⟩
    · exact h.done hold
    · exact absurd h.recalled (by simp [hnew])

theorem run {c : Machine.Config Shared Frame} {es : List (Machine.Event Frame Input)} (h : Attempted cfg r c.state c.frames)
    (hes : (recallsUndisturbed cfg).Permits (server cfg) c es) :
    Attempted cfg r ((server cfg).run c es).state ((server cfg).run c es).frames :=
  Machine.run_invariant (fun _ _ _ h hf => h.spawn hf) (fun _ _ _ _ _ h hrule => h.step hrule) h hes

end Attempted

/-! ### Revocation -/

/-- A sweep finds a delegation past its deadline in a run in which recalls are undisturbed. Until the delegation
is closed, its holder has been asked, or could not be reached at any moment since the recall started. -/
theorem revoked_after_asking (cfg : Config) (before after : List (Machine.Event Frame Input)) (i : Nat) (input : Input)
    (rest : List Frame) (r : StateRef)
    (hrun : (recallsUndisturbed cfg).Permits (server cfg) boot (before ++ Machine.Event.step i input :: after))
    (hsweep : ((server cfg).run boot before).tasks[i]? = some (.sweepRecalls :: rest))
    (hdue : r ∈ ((server cfg).run boot before).state.due)
    (hopen : (((server cfg).run boot (before ++ Machine.Event.step i input :: after)).state.states r).closed = false) :
    ((server cfg).run boot (before ++ Machine.Event.step i input :: after)).state.Asked r ∨
      ∀ k, let s := ((server cfg).run boot ((before ++ Machine.Event.step i input :: after).take k)).state
        (s.states r).recalled = true → ¬s.Reachable (s.states r).client := by
  set events := before ++ Machine.Event.step i input :: after with hevents
  have hinv : ∀ {es}, (recallsUndisturbed cfg).Permits (server cfg) boot es →
      RecallInv cfg ((server cfg).run boot es).state ((server cfg).run boot es).frames := fun hes =>
    Machine.run_invariant (fun _ _ _ h hf => h.spawn hf) (fun _ _ _ _ _ h hrule => h.step hrule) (RecallInv.boot cfg) hes
  by_cases hasked : ((server cfg).run boot events).state.Asked r
  · exact Or.inl hasked
  refine Or.inr fun k => ?_
  intro s hrec hreach
  obtain ⟨hbefore, hafter⟩ := Machine.Rules.permits_append.mp hrun
  have hswept : (recallsUndisturbed cfg).step ((server cfg).run boot before).state
      ((server cfg).run boot before).frames input .sweepRecalls := by
    simpa [Machine.Rules.Allows, hsweep] using hafter.1
  -- from the sweep on the recall is not on its way
  have hdone : Attempted cfg r ((server cfg).run boot events).state ((server cfg).run boot events).frames := by
    rw [hevents, Machine.run_append]
    refine Attempted.run ?_ hafter
    refine ⟨hinv hbefore, (hinv hbefore).watched r ?_, hswept.sweeps r hdue⟩
    exact List.mem_of_mem_filter (List.mem_of_mem_filter hdue)
  -- from the moment on at which the holder can be reached it is, or it is asked
  have hsplit : events = events.take k ++ events.drop k := (List.take_append_drop k events).symm
  have hlater : Pursued cfg r ((server cfg).run boot events).state ((server cfg).run boot events).frames := by
    rw [hsplit] at hrun ⊢
    obtain ⟨hfirst, hlast⟩ := Machine.Rules.permits_append.mp hrun
    rw [Machine.run_append]
    refine Pursued.run ?_ hlast
    have hthen := hinv hfirst
    refine ⟨hthen, hrec, ?_⟩
    by_cases hasked' : s.Asked r
    · exact Or.inl hasked'
    rcases Bool.eq_false_or_eq_true (s.states r).closed with hclosed | hopen'
    · exact Or.inr (Or.inl hclosed)
    · have hway := (hthen.heard r ⟨⟨hrec, hopen'⟩, hasked'⟩).resolve_right (not_not_intro hreach)
      exact Or.inr (Or.inr ⟨hway, hreach⟩)
  rcases hlater.outcome with hasked' | hclosed | ⟨hway, -⟩
  · exact hasked hasked'
  · simp [hopen] at hclosed
  · exact hdone.done hway

/-! ### Two recalls to one client -/

def recalledFile (n : UInt8) : FileKey := ⟨1, ⟨[n], by simp⟩⟩

/-- The client of the first session opens the file for reading and is granted a delegation, as tasks `i` and `i + 1`. -/
def delegated (i : Nat) (n : UInt8) : List (Machine.Event Frame Input) :=
  request i (.openState { clientid := 0x100000001, file := recalledFile n, owner := [97], access := 1, deny := 0 }) 8 ++
    request (i + 1) (.grantReadDeleg
      { session := ⟨0x100000001, 1, 0⟩, file := recalledFile n, fh := [n], access := 1 }) 9

/-- Another client asks for the file to write, as task `i`; the delegation is recalled and the open delayed. -/
def conflictingOpen (i : Nat) (n : UInt8) : List (Machine.Event Frame Input) :=
  request i (.openState { clientid := 0x100000002, file := recalledFile n, owner := [98], access := 2, deny := 0 }) 6

/-- The holder renews its lease in time, as tasks `i` to `i + 2`; then the lease scan comes to its sweep as task `i + 3`. -/
def deadlinePasses (i : Nat) : List (Machine.Event Frame Input) :=
  request i (.tick 60000000000) 1 ++
    request (i + 1) (.sequenceBegin { id := ⟨0x100000001, 1, 0⟩, slotid := 0, seqid := 1, highest := 0 }) 2 ++
    request (i + 2) (.tick 40000000000) 1 ++ request (i + 3) .scanLeases 5

/-- Two clients, the first of them with a backchannel. -/
def holderAndWriter : List (Machine.Event Frame Input) :=
  joinWithBackchannel 0 [65] 0x100000001 ++ join 3 [66] 0x100000002

/-- A delegation is recalled, its holder is asked and answers, but keeps it. -/
def recallIgnored : List (Machine.Event Frame Input) :=
  holderAndWriter ++ delegated 6 1 ++ conflictingOpen 8 1 ++ request 9 .runRecall 7 ++ deadlinePasses 10

def swept : List (Machine.Event Frame Input) := recallIgnored ++ Machine.Event.step 13 ({} : Input) :: []

theorem revoked_after_asking_in_vain :
    ((server {}).run boot swept).state.Asked 1 ∨ ∀ k, let s := ((server {}).run boot (swept.take k)).state
      (s.states 1).recalled = true → ¬s.Reachable (s.states 1).client := by
  have hrun : (recallsUndisturbed {}).Permits (server {}) boot swept := by decide +kernel
  have hsweep : ((server {}).run boot recallIgnored).tasks[13]? = some [Frame.sweepRecalls] := by decide +kernel
  exact revoked_after_asking {} recallIgnored [] 13 {} [] 1 hrun hsweep (by decide +kernel) (by decide +kernel)

/-- Two delegations of one client are recalled. The second recall finds the callback slot taken by the first. -/
def slotTaken : List (Machine.Event Frame Input) :=
  holderAndWriter ++ delegated 6 1 ++ delegated 8 2 ++ conflictingOpen 10 1 ++ conflictingOpen 11 2 ++
    request 12 .runRecall 6 ++ request 13 .runRecall 5 ++ [Machine.Event.step 12 ({} : Input)]

/-- The holder returns the first delegation and renews its lease. -/
def secondRecallLost : List (Machine.Event Frame Input) :=
  slotTaken ++ request 14 (.delegreturn ⟨1, ⟨1, 3, 2⟩⟩ 0x100000001 (recalledFile 1)) 6 ++ deadlinePasses 15

/-- The second delegation is past its deadline and revoked. Its holder was never asked, and has a usable backchannel. -/
theorem revoked_without_asking :
    let s := (server {}).run boot secondRecallLost
    anyRun.Permits (server {}) boot secondRecallLost ∧ s.tasks[18]? = some [Frame.sweepRecalls] ∧ 3 ∈ s.state.due ∧
      ¬s.state.Asked 3 ∧ s.state.Reachable (s.state.states 3).client ∧
      (((server {}).run boot (secondRecallLost ++ List.replicate 2 (Machine.Event.step 18 ({} : Input)))).state.states 3).closed = true := by
  decide +kernel

end LightNfs
