import LightNfs.State.Frames

/-!
# Every run keeps its references

A section hands its continuation only references the tables know. With what `Change` says about the tables
this makes validity an invariant of every run.
-/

namespace LightNfs

theorem Follows.wf {cfg : Config} {t u : Tables} {f g : Frame} (h : Follows cfg t u f g) (hwf : t.Wf cfg)
    (hf : f.Wf t) (he : t.Extends u) : g.Wf u := by
  have hidx : ∀ {clientid c}, t.clientIdx clientid = some c → u.Client c clientid :=
    fun hc => (hwf.idx _ _ hc).extends he
  have htable : ∀ {other r}, t.table other = some r → r < u.stateRefs :=
    fun hr => (hwf.table _ _ hr).1.trans_le he.stateRefs
  have hfile : ∀ {file} type {r}, r ∈ (t.fileAt file).list type → r < u.stateRefs :=
    fun _ _ hr => (hwf.files _ _ _ hr).1.trans_le he.stateRefs
  have hcaller : ∀ {clientid c}, t.clientIdx clientid = some c → (t.clients c).confirmed = true →
      u.Caller c clientid := fun hc hconf => Tables.Caller.extends ⟨hwf.idx _ _ hc, hconf⟩ he
  cases h with
  | createClient hc | confirmClient hc | destroyClient hc | reclaimClient hc | expireSection hc | grantClient hc =>
    exact hidx hc
  | createInsert => exact Tables.Client.extends ⟨hf.1, rfl⟩ he
  | destroySessionClient hc => exact (hwf.sessions _ _ hc).extends he
  | reap hr | delegreturn hr | closeCheck hr | downgradeCheck hr | freeCheck hr | ioCheck hr | lockuCheck hr =>
    exact htable hr
  | scanStart hdue =>
    intro c hc
    obtain ⟨clientid, hidx⟩ := hdue c hc
    exact (hwf.idx _ _ hidx).1.trans_le he.clientRefs
  | scanNext => exact fun c hc => (hf c (List.mem_cons_of_mem _ hc)).trans_le he.clientRefs
  | scanClient =>
    refine ⟨(hf _ (List.mem_cons_self ..)).trans_le he.clientRefs, fun c hc => ?_⟩
    exact (hf c (List.mem_cons_of_mem _ hc)).trans_le he.clientRefs
  | scanDone => exact fun c hc => (hf.2 c hc).trans_le he.clientRefs
  | expireUnpersist hexp => exact ⟨hf.1.trans_le he.clientRefs, hexp⟩
  | unlinkFile hopen hu =>
    subst hu
    exact ⟨hf, by simp [Tables.close, Tables.setState]⟩
  | unlinkLocks htype | unlinkDeleg htype => exact ⟨hf.extends he, (he.type hf.1).trans htype⟩
  | unlinkDependent htype hl => exact hfile .kLock hl
  | untrackState => exact hf.extends he
  | openGate hc hconf | lockGate hc hconf => exact hcaller hc hconf
  | openGrace | openFirst | openRetry | lockGrace | lockState => exact Tables.Caller.extends hf he
  | openRecall hr | delegRecall hr | ioRecall hr =>
    have hdeleg := hwf.files _ .kDeleg _ hr
    exact ⟨hdeleg.1.trans_le he.stateRefs, (he.type hdeleg.1).trans hdeleg.2.1⟩
  | openInsert hu | grantInsert hu | lockInsert hu =>
    subst hu
    exact Tables.state_publish _ _
  | openTrack | grantTrack | grantCount | lockTrack => exact Tables.State.extends hf he
  | trackUndo hor =>
    rcases hor with rfl | rfl
    · exact hf.1.trans_le he.stateRefs
    · exact hf.1.trans_le he.stateRefs
  | grantFile => exact Tables.Client.extends hf he
  | grantUndo => exact hf.1.trans_le he.stateRefs
  | sweep hr => exact (hwf.watch _ hr).1.trans_le he.stateRefs
  | closeUnlink | freeUnlink => exact hf.trans_le he.stateRefs
  | downgradeWrite htype | lockuRange htype => exact ⟨hf.trans_le he.stateRefs, (he.type hf).trans htype⟩
  | lockuBump => exact ⟨hf.1.trans_le he.stateRefs, (he.type hf.1).trans hf.2⟩
  | lockCheck hr => exact ⟨Tables.Caller.extends hf he, htable hr⟩
  | lockNamesOpen hnew hr hopen =>
    refine Tables.LockOk.extends ⟨hf.1, ⟨hf.2, hr.1, hr.2.1⟩, hr.2.2, rfl, fun l hl => ?_⟩ he
    exact absurd hl (by simp)
  | lockNamesLock hnew hr hparent hopen =>
    obtain ⟨hlowner, p, hp, hpState, hpKey⟩ := (hwf.records _ hf.2).2 hr.2.1
    obtain rfl : p = _ := Option.some.inj (hp.symm.trans hparent)
    refine Tables.LockOk.extends ⟨hf.1, ⟨hpState.1, hpState.2.1.trans hr.1, hpState.2.2⟩, hpKey.trans hr.2.2, rfl,
      fun l hl => ?_⟩ he
    obtain rfl := Option.some.inj hl
    refine ⟨⟨hf.2, hr.1, hr.2.1⟩, hr.2.2, hlowner.trans ?_, hparent⟩
    rw [hr.1, hf.1.1.2]
  | lockBefore | lockPush | lockGranted | lockConflict | lockRetry | lockPushed | lockRestore | lockRelock | lockFile =>
    exact Tables.LockOk.extends hf he
  | lockFirst hor =>
    rcases hor with rfl | rfl
    · exact Tables.LockOk.extends hf he
    · exact Tables.LockOk.extends hf he
  | releaseStart => exact List.forall_mem_nil _
  | releaseScan hfound =>
    intro r hr
    rcases List.mem_append.mp hr with hr | hr
    · exact (hf r hr).trans_le he.stateRefs
    · obtain ⟨other, hother⟩ := hfound r hr
      exact htable hother
  | releaseFound => exact fun r hr => (hf r hr).trans_le he.stateRefs
  | releaseNext => exact fun r hr => (hf r (List.mem_cons_of_mem _ hr)).trans_le he.stateRefs
  | releaseUnlink => exact (hf _ (List.mem_cons_self ..)).trans_le he.stateRefs
  | _ => exact trivial

/-! ### Whole runs -/

def Frame.Request : Frame → Prop
  | tick _ | exchangeId _ | createSession _ | destroySession _ _ | destroyClientid _ | bindConn _ _
  | bindBackchannel _ _ | reclaimComplete _ | sequenceBegin _ | sequenceAbort _ _ | sequenceComplete _ _ _ _ _
  | openDelegCur _ _ | openState _ | grantReadDeleg _ | delegreturn _ _ _ | delegRecallNeeded _ | delegConflict _
  | sweepRecalls | runRecall | notifyTask _ _ _ | detach _ | closeState _ _ _
  | openDowngrade _ _ _ _ _ | freeStateid _ _ | checkIo _ _ _ _ | testStateid _ | lock _ | lockt _ | locku _ _ _ _ | scanLeases | expireClient _ _
  | releaseFsid _ | armGrace _ | endGrace _ => True
  | _ => False

instance : DecidablePred Frame.Request := fun f => by
  apply @Frame.casesOn _ f <;> intros <;> first | exact isTrue trivial | exact isFalse id

theorem Frame.Request.wf {f : Frame} (hf : f.Request) (t : Tables) : f.Wf t := by
  cases f <;> first | exact trivial | exact hf.elim

theorem Frame.mem_of_spawn {fs : List Frame} {f g : Frame} (hf : f.Request) (hg : ¬g.Request) (h : g ∈ fs ++ [f]) :
    g ∈ fs := by
  rcases List.mem_append.mp h with h | h
  · exact h
  · rw [List.mem_singleton] at h
    subst h
    exact absurd hf hg

/-- Valid tables and pending frames that may rely on their locals. -/
structure Live (cfg : Config) (s : Shared) (fs : List Frame) : Prop where
  tables : s.tables.Wf cfg
  frames : Frame.AllWf s.tables fs

namespace Live

variable {cfg : Config} {s : Shared} {fs pre post : List Frame} {f : Frame}

theorem boot (cfg : Config) : Live cfg LightNfs.boot.state LightNfs.boot.frames where
  tables :=
    { idx := fun _ _ h => absurd h (by simp [Machine.start, Shared.tables])
      ids := fun _ _ h => absurd h (by simp [Machine.start, Shared.tables])
      confirmed := fun _ _ h => absurd h (by simp [Machine.start, Shared.tables])
      unconfirmed := fun _ _ h => absurd h (by simp [Machine.start, Shared.tables])
      sessions := fun _ _ h => absurd h (by simp [Machine.start, Shared.tables])
      lockOwners := fun _ _ h => absurd h (by simp [Machine.start, Shared.tables])
      records := fun _ h => absurd h (Nat.not_lt_zero _)
      table := fun _ _ h => absurd h (by simp [Machine.start, Shared.tables])
      files := fun _ _ _ h => absurd h (by simp [Machine.start, Shared.tables, Tables.fileAt])
      watch := fun _ h => absurd h List.not_mem_nil }
  frames := .nil

theorem spawn (h : Live cfg s fs) (hf : f.Request) : Live cfg s (fs ++ [f]) :=
  ⟨h.tables, .append h.frames (.one (hf.wf _))⟩

theorem current (h : Live cfg s (pre ++ f :: post)) : f.Wf s.tables := h.frames f (by simp)

theorem step (h : Live cfg s (pre ++ f :: post)) (input : Input) :
    Live cfg (s.exec cfg input f).1 (pre ++ ((s.exec cfg input f).2 ++ post)) := by
  have hchange := Shared.exec_change s cfg input f
  refine ⟨h.tables.change h.current hchange, Machine.forall_frames_step h.frames (fun g hg => ?_) ?_⟩
  · exact hg.extends (.of_change hchange)
  · exact fun g hg => (Shared.exec_flow s cfg input f g hg).wf h.tables h.current (.of_change hchange)

end Live

/-- Requests arrive in any order and their frames interleave in any way. -/
abbrev anyRun : Machine.Rules Shared Frame Input where
  spawn _ _ f := f.Request
  step _ _ _ _ := True

/-- Each request arrives when the one before it has finished. -/
abbrev inSequence : Machine.Rules Shared Frame Input where
  spawn _ fs f := fs = [] ∧ f.Request
  step _ _ _ _ := True

/-- Whatever is executed in whatever order, a client keeps its ids and a state its stateid, file and owner, and
nothing that was confirmed, expired or closed goes back. -/
theorem records_keep_identity (cfg : Config) (c : Machine.Config Shared Frame)
    (events : List (Machine.Event Frame Input)) :
    c.state.tables.Extends ((server cfg).run c events).state.tables := by
  induction events generalizing c with
  | nil => exact .refl _
  | cons e events ih =>
    refine .trans ?_ (ih _)
    cases e with
    | spawn f => exact .refl _
    | step i input =>
      obtain hsame | ⟨f, -, -, -, -, -, hstate, -⟩ := Machine.apply_step_cases (m := server cfg) c i input
      · rw [hsame]
        exact .refl _
      · rw [hstate]
        exact .of_change (c.state.exec_change cfg input f)

/-! ### Runs to start from -/

/-- A request that takes `n` steps without interruption, as task `i`. -/
def request (i : Nat) (f : Frame) (n : Nat) : List (Machine.Event Frame Input) :=
  .spawn f :: List.replicate n (.step i {})

/-- A client registers, creates a session and completes its reclaim, as tasks `i` to `i + 2`. -/
def join (i : Nat) (owner : Bytes) (clientid : UInt64) : List (Machine.Event Frame Input) :=
  request i (.exchangeId { ownerId := owner, verifier := 1, principal := owner, update := false }) 2 ++
    request (i + 1) (.createSession { clientid := clientid, sequence := 1, principal := owner }) 7 ++
    request (i + 2) (.reclaimComplete clientid) 4

/-- A client joins with a backchannel, as tasks `i` to `i + 2`. -/
def joinWithBackchannel (i : Nat) (owner : Bytes) (clientid : UInt64) : List (Machine.Event Frame Input) :=
  request i (.exchangeId { ownerId := owner, verifier := 1, principal := owner }) 2 ++
    request (i + 1) (.createSession { clientid := clientid, sequence := 1, flags := 2, principal := owner }) 7 ++
    request (i + 2) (.reclaimComplete clientid) 4

end LightNfs
