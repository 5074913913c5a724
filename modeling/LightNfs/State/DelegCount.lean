import LightNfs.State.Details
import LightNfs.State.Filed
import LightNfs.State.Runs
import Mathlib

/-!
# The delegation counter

`deleg_conflict` and the v3 gate look at `deleg_count_` before they look at the file. The counter is raised two
sections after a delegation is published and lowered two sections after it is closed, so it is off by exactly
what the pending grants and unlinks still owe it.
-/

namespace LightNfs

/-- What the frame still owes the counter, beyond the live delegations. -/
def Frame.delegWeight (t : Tables) : Frame → Int
  | grantInsert _ _ | grantTrack _ _ | grantCount _ _ _ _ => -1
  | unlinkFile r _ _ => if (t.states r).type = .kDeleg then 1 else 0
  | unlinkDeleg _ => 1
  | _ => 0

/-- A grant that has published its delegation and not counted it yet. -/
def Frame.Uncounted : Frame → Prop
  | grantInsert _ _ | grantTrack _ _ | grantCount _ _ _ _ => True
  | _ => False

instance : DecidablePred Frame.Uncounted := fun f => by
  apply @Frame.casesOn _ f <;> intros <;> first | exact isTrue trivial | exact isFalse id

namespace Tables

def openDelegs (t : Tables) : Finset StateRef :=
  (Finset.range t.stateRefs).filter fun r => (t.states r).type = .kDeleg ∧ (t.states r).closed = false

variable {t t' : Tables}

theorem mem_openDelegs {r : StateRef} :
    r ∈ t.openDelegs ↔ r < t.stateRefs ∧ (t.states r).type = .kDeleg ∧ (t.states r).closed = false := by
  rw [openDelegs, Finset.mem_filter, Finset.mem_range]

theorem openDelegs_congr (hrefs : t'.stateRefs = t.stateRefs)
    (hstates : ∀ r, (t'.states r).type = (t.states r).type ∧ (t'.states r).closed = (t.states r).closed) :
    t'.openDelegs = t.openDelegs := by
  ext r
  rw [mem_openDelegs, mem_openDelegs, hrefs, (hstates r).1, (hstates r).2]

theorem SameRecords.openDelegs (h : t.SameRecords t') : t'.openDelegs = t.openDelegs :=
  openDelegs_congr h.stateRefs fun r => by simp [h.states]

theorem openDelegs_setShare (t : Tables) (r : StateRef) (access deny : ShareBits) :
    (t.setShare r access deny).openDelegs = t.openDelegs := by
  refine openDelegs_congr rfl fun r' => ?_
  by_cases hr : r' = r
  · subst hr
    simp [setShare, setState]
  · simp [setShare, setState, hr]

theorem openDelegs_dropFromFile (t : Tables) (r : StateRef) : (t.dropFromFile r).openDelegs = t.openDelegs :=
  openDelegs_congr (t.stateRefs_dropFromFile r) fun r' => by simp [t.states_dropFromFile r]

theorem openDelegs_publish (t : Tables) {v : StateView} (hv : v.closed = false) :
    (t.publish v).openDelegs = if v.type = .kDeleg then insert t.stateRefs t.openDelegs else t.openDelegs := by
  ext r
  rw [mem_openDelegs, states_publish]
  have hrefs : (t.publish v).stateRefs = t.stateRefs + 1 := rfl
  rw [hrefs]
  split <;> split <;> simp only [Finset.mem_insert, mem_openDelegs] <;> grind

theorem card_publish (t : Tables) {v : StateView} (hv : v.closed = false) :
    ((t.publish v).openDelegs.card : Int) = t.openDelegs.card + if v.type = .kDeleg then 1 else 0 := by
  rw [openDelegs_publish t hv]
  split
  · have hnew : t.stateRefs ∉ t.openDelegs := fun h => Nat.lt_irrefl _ (mem_openDelegs.mp h).1
    rw [Finset.card_insert_of_notMem hnew]
    rfl
  · exact (add_zero _).symm

theorem openDelegs_close (t : Tables) (r : StateRef) : (t.close r).openDelegs = t.openDelegs.erase r := by
  ext r'
  rw [Finset.mem_erase, mem_openDelegs, mem_openDelegs]
  by_cases hr : r' = r
  · subst hr
    simp [close, setState]
  · simp [close, setState, hr]

theorem card_close (t : Tables) {r : StateRef} (hr : r < t.stateRefs) (hopen : (t.states r).closed = false) :
    ((t.close r).openDelegs.card : Int) = t.openDelegs.card - if (t.states r).type = .kDeleg then 1 else 0 := by
  rw [openDelegs_close]
  split
  · next htype =>
    have hmem := mem_openDelegs.mpr ⟨hr, htype, hopen⟩
    have hpos := Finset.card_pos.mpr ⟨r, hmem⟩
    rw [Finset.card_erase_of_mem hmem]
    omega
  · next htype =>
    rw [Finset.erase_eq_of_notMem fun h => htype (mem_openDelegs.mp h).2.1]
    exact (sub_zero _).symm

end Tables

/-! ### One frame -/

/-- Sections that neither publish nor count, close nor uncount a delegation. -/
def Frame.CountsNothing : Frame → Prop
  | grantFile _ _ _ | grantInsert _ _ | grantTrack _ _ | grantCount _ _ _ _ | unlinkState _ _ _ | unlinkFile _ _ _
  | unlinkDeleg _ => False
  | _ => True

variable {cfg : Config} {f : Frame} {t : Tables}

theorem Effect.delegs {s : Shared} {d : Details} (h : Effect cfg s f t d)
    (hf : f.CountsNothing) : d.delegs = s.details.delegs := by
  cases h with
  | exchangeFull hu => cases hu <;> simp
  | exchangeNew hu => cases hu <;> simp [Details.addClient, Details.renew, Details.setCourtesy]
  | @createFirst c =>
    cases hold : s.oldIncarnation c <;> simp [Details.renew, Details.retireOld, Details.setCourtesy]
  | persist => split <;> rfl
  | destroyed => exact Details.delegs_unpersist _ _ _ _
  | scanLapsed => exact Details.delegs_unpersist _ _ _ _
  | unpersist => exact Details.delegs_unpersist _ _ _ _
  | uncount => exact hf.elim
  | count => exact hf.elim
  | _ => rfl

theorem Change.openDelegs {t' : Tables} (h : Change cfg t f t') (hf : f.CountsNothing) :
    (t'.openDelegs.card : Int) = t.openDelegs.card := by
  by_cases hrec : f.OnRecords
  · cases h with
    | openMerge => rw [Tables.openDelegs_setShare]
    | openNew => exact (Tables.card_publish _ rfl).trans (add_zero _)
    | downgrade => rw [Tables.openDelegs_setShare]
    | lockNew => exact (Tables.card_publish _ rfl).trans (add_zero _)
    | lockReuse => rfl
    | _ => first | rfl | exact hf.elim | exact hrec.elim
  · rw [(Tables.SameRecords.of_change h hrec).openDelegs]

theorem Follows.delegWeight {u : Tables} {g : Frame} (h : Follows cfg t u f g)
    (hf : f.CountsNothing) : g.delegWeight u = 0 := by
  cases h <;> first | rfl | exact hf.elim

namespace Shared

theorem sum_delegWeight_of_zero {t : Tables} {fs : List Frame} (h : ∀ g ∈ fs, g.delegWeight t = 0) :
    (fs.map (Frame.delegWeight t)).sum = 0 := List.sum_eq_zero (by simpa using h)

theorem sum_unlinkFile (s : Shared) (t : Tables) (r : StateRef) (fromClient handover : Bool) :
    ((s.unlinkFile r fromClient handover).2.map (Frame.delegWeight t)).sum =
      if (s.states r).type = .kDeleg then 1 else 0 := by
  have hdependents : (((s.dependents r).map (Frame.unlinkState · fromClient handover)).map
      (Frame.delegWeight t)).sum = 0 := by
    refine sum_delegWeight_of_zero fun g hg => ?_
    obtain ⟨l, -, rfl⟩ := List.mem_map.mp hg
    rfl
  rw [unlinkFile]
  dsimp only
  rw [List.map_append, List.map_append, List.sum_append, List.sum_append, hdependents]
  cases (s.states r).type <;> cases fromClient <;> rfl

theorem exec_balance (s : Shared) (cfg : Config) (input : Input) {f : Frame} (hf : f.Wf s.tables) :
    (s.exec cfg input f).1.details.delegs + f.delegWeight s.tables + s.tables.openDelegs.card =
      s.details.delegs + (s.exec cfg input f).1.tables.openDelegs.card +
        ((s.exec cfg input f).2.map (Frame.delegWeight (s.exec cfg input f).1.tables)).sum := by
  have heffect := s.exec_effect cfg input f
  have hchange := s.exec_change cfg input f
  have hflow := s.exec_flow cfg input f
  have hplain : f.Plain → (s.exec cfg input f).1.details = s.details := details_of_plain cfg s input
  by_cases hnone : f.CountsNothing
  · have hzero : f.delegWeight s.tables = 0 := by
      cases f <;> first | rfl | exact hnone.elim
    rw [heffect.delegs hnone, hchange.openDelegs hnone, hzero,
      sum_delegWeight_of_zero fun g hg => (hflow g hg).delegWeight hnone]
    omega
  · cases f with
    | grantFile c other args =>
      simp only [exec, grantFile]
      split
      · simp [Frame.delegWeight]
      · rw [tables_publish, Tables.card_publish _ rfl, details_publish _ rfl rfl rfl]
        simp [Frame.delegWeight, StateRec.view, Details.addState]
        omega
    | grantInsert c r =>
      rw [(Tables.SameRecords.of_change hchange id).openDelegs, hplain trivial]
      simp [exec, grantInsert, Frame.delegWeight]
      omega
    | grantTrack c r =>
      rw [(Tables.SameRecords.of_change hchange id).openDelegs, hplain trivial]
      simp only [exec, grantTrack]
      split <;> simp [Frame.delegWeight] <;> omega
    | grantCount c r dead firstInFs =>
      simp only [exec, tables_grantCount, details_grantCount]
      simp only [grantCount]
      split
      · simp [Frame.delegWeight]
      · split <;> simp [Frame.delegWeight]
    | unlinkState r fromClient handover =>
      cases hclosed : (s.states r).closed with
      | true =>
        simp only [exec, unlinkState, hclosed, if_true]
        simp [Frame.delegWeight]
      | false =>
        have hnext : (s.unlinkState r fromClient handover).2 = [.unlinkFile r fromClient handover] := by
          simp [unlinkState, hclosed]
        have hcard := Tables.card_close s.tables hf hclosed
        have htype : ((s.tables.close r).states r).type = (s.tables.states r).type := by simp [Tables.close, Tables.setState]
        rw [hplain trivial]
        simp only [exec, tables_unlinkState s hclosed, hnext, List.map_singleton, List.sum_singleton, Frame.delegWeight,
          htype]
        omega
    | unlinkFile r fromClient handover =>
      rw [hplain trivial]
      simp only [exec]
      rw [sum_unlinkFile, unlinkFile, tables_dropFromFile, Tables.openDelegs_dropFromFile]
      have htype : (s.tables.states r).type = (s.states r).type := rfl
      simp only [Frame.delegWeight, htype]
      omega
    | unlinkDeleg r =>
      simp only [exec, tables_unlinkDeleg, details_unlinkDeleg]
      simp [Frame.delegWeight]
    | _ => exact absurd trivial hnone

end Shared

/-- The counter is the number of live delegations, up to what pending frames owe it. -/
def Counted (s : Shared) (fs : List Frame) : Prop :=
  s.gauges.delegs = s.tables.openDelegs.card + (fs.map (Frame.delegWeight s.tables)).sum

theorem Frame.delegWeight_extends {t' : Tables} (he : t.Extends t') (hf : f.Wf t) :
    f.delegWeight t' = f.delegWeight t := by
  cases f with
  | unlinkFile r fromClient handover => rw [Frame.delegWeight, Frame.delegWeight, he.type hf.1]
  | _ => rfl

namespace Counted

variable {cfg : Config} {s : Shared} {fs pre post : List Frame} {f : Frame}

theorem spawn (h : Counted s fs) (hf : f.Request) : Counted s (fs ++ [f]) := by
  have hzero : f.delegWeight s.tables = 0 := by
    cases f <;> first | rfl | exact hf.elim
  rw [Counted, List.map_append, List.sum_append, List.map_singleton, List.sum_singleton, hzero, add_zero]
  exact h

theorem step (h : Counted s (pre ++ f :: post)) (hlive : Live cfg s (pre ++ f :: post)) (input : Input) :
    Counted (s.exec cfg input f).1 (pre ++ ((s.exec cfg input f).2 ++ post)) := by
  have hext : s.tables.Extends (s.exec cfg input f).1.tables := .of_change (s.exec_change cfg input f)
  have hkeep : ∀ g ∈ pre ++ post, g.delegWeight (s.exec cfg input f).1.tables = g.delegWeight s.tables :=
    fun g hg => Frame.delegWeight_extends hext (hlive.frames g (Machine.mem_of_waiting hg))
  have hbalance := s.exec_balance cfg input hlive.current
  have hcounter : (s.exec cfg input f).1.details.delegs = (s.exec cfg input f).1.gauges.delegs := rfl
  have hbefore : s.details.delegs = s.gauges.delegs := rfl
  rw [Counted, Machine.sum_weights_step _ f hkeep]
  rw [Counted] at h
  omega

end Counted

/-! ### Runs -/

/-- The sections in which a request learns that a file has no delegation to recall. -/
inductive Frame.AsksFor (file : FileKey) : Frame → Prop
  | gate : Frame.AsksFor file (.delegRecallNeeded file)
  | counter : Frame.AsksFor file (.delegConflict file)
  | lists : Frame.AsksFor file (.delegConflictFile file)

/-- Reads of the counter find no grant between its publication and its counting. -/
def Frame.ReadsSettled (fs : List Frame) : Frame → Prop
  | delegRecallNeeded _ | delegConflict _ => ∀ g ∈ fs, ¬g.Uncounted
  | _ => True

instance (fs : List Frame) (f : Frame) : Decidable (f.ReadsSettled fs) := by
  apply @Frame.casesOn _ f <;> intros <;> dsimp only [Frame.ReadsSettled] <;> infer_instance

abbrev settledReads : Machine.Rules Shared Frame Input where
  spawn _ _ f := f.Request
  step _ fs _ f := f.ReadsSettled fs

structure DelegInv (cfg : Config) (s : Shared) (fs : List Frame) : Prop where
  live : Live cfg s fs
  counted : Counted s fs

theorem DelegInv.liveDelegs_eq_nil {s : Shared} {fs : List Frame} (h : DelegInv cfg s fs)
    (hsettled : ∀ g ∈ fs, ¬g.Uncounted) (hzero : s.gauges.delegs ≤ 0) (file : FileKey) : s.liveDelegs file = [] := by
  have howed : 0 ≤ (fs.map (Frame.delegWeight s.tables)).sum := by
    refine List.sum_nonneg fun w hw => ?_
    obtain ⟨g, hg, rfl⟩ := List.mem_map.mp hw
    have hg := hsettled g hg
    cases g <;> first | exact absurd trivial hg | (simp only [Frame.delegWeight]; try split) <;> decide
  have hcard : s.tables.openDelegs = ∅ := by
    have hcounted := h.counted
    rw [Counted] at hcounted
    rw [← Finset.card_eq_zero]
    omega
  rw [Shared.liveDelegs, List.filter_eq_nil_iff]
  intro r hr hlive
  obtain ⟨hrefs, htype, -⟩ := h.live.tables.files file .kDeleg r hr
  have hopen : (s.states r).closed = false := ((Shared.not_dead_iff s r).mp (by simpa using hlive)).1
  have hmem : r ∈ s.tables.openDelegs := Tables.mem_openDelegs.mpr ⟨hrefs, htype, hopen⟩
  rw [hcard] at hmem
  exact absurd hmem (Finset.notMem_empty r)

/-- The counter is the number of delegations that are not closed, and a gate that reads it as zero misses none. -/
def Shared.CountsDelegs (s : Shared) : Prop :=
  s.gauges.delegs = s.tables.openDelegs.card ∧ (s.anyDelegations = false → ∀ file, s.liveDelegs file = [])

/-- Once all requests have finished the counter is right, however they interleaved. -/
theorem deleg_counter_right_at_rest (cfg : Config) (events : List (Machine.Event Frame Input))
    (hrun : anyRun.Permits (server cfg) boot events) (hquiet : ((server cfg).run boot events).Quiescent) :
    ((server cfg).run boot events).state.CountsDelegs := by
  have hboot : DelegInv cfg boot.state boot.frames := ⟨Live.boot cfg, rfl⟩
  have hinv : DelegInv cfg ((server cfg).run boot events).state ((server cfg).run boot events).frames :=
    Machine.run_invariant (fun _ _ _ h hf => ⟨h.live.spawn hf, h.counted.spawn hf⟩)
      (fun _ _ _ _ input h _ => ⟨h.live.step input, h.counted.step h.live input⟩) hboot hrun
  rw [hquiet] at hinv
  refine ⟨by simpa [Counted] using hinv.counted, fun hnone file => ?_⟩
  refine hinv.liveDelegs_eq_nil (by simp) ?_ file
  simpa [Shared.anyDelegations] using hnone

/-- Whenever the delegation gate answers that there is nothing to recall on a file, no live delegation is
published on it at that very step, in runs whose gates read the counter while no grant is about to count. -/
theorem deleg_gate_exact (cfg : Config) (events : List (Machine.Event Frame Input)) (i : Nat) (input : Input)
    (f : Frame) (rest : List Frame) (file : FileKey)
    (hrun : settledReads.Permits (server cfg) boot (events ++ [Machine.Event.step i input]))
    (htask : ((server cfg).run boot events).tasks[i]? = some (f :: rest)) (hf : f.AsksFor file)
    (hanswer : (((server cfg).run boot events).state.exec cfg input f).2 = [.reply (.status .ok)]) :
    ((server cfg).run boot events).state.liveDelegs file = [] := by
  obtain ⟨hevents, hsettled⟩ := Machine.Rules.permits_step hrun htask
  have hboot : DelegInv cfg boot.state boot.frames := ⟨Live.boot cfg, rfl⟩
  have hinv : DelegInv cfg ((server cfg).run boot events).state ((server cfg).run boot events).frames :=
    Machine.run_invariant (fun _ _ _ h hf => ⟨h.live.spawn hf, h.counted.spawn hf⟩)
      (fun _ _ _ _ input h _ => ⟨h.live.step input, h.counted.step h.live input⟩) hboot hevents
  generalize ((server cfg).run boot events).state = s at *
  cases hf with
  | gate =>
    refine hinv.liveDelegs_eq_nil hsettled ?_ file
    by_contra hpos
    have hany : s.anyDelegations = true := decide_eq_true (by omega)
    simp [Shared.exec, Shared.delegRecallNeeded, hany] at hanswer
  | counter =>
    refine hinv.liveDelegs_eq_nil hsettled ?_ file
    by_contra hpos
    have hne : s.gauges.delegs ≠ 0 := by omega
    simp [Shared.exec, Shared.delegConflict, hne] at hanswer
  | lists =>
    simp only [Shared.exec, Shared.delegConflictFile] at hanswer
    split at hanswer
    · assumption
    · have hlast := congrArg List.getLast? hanswer
      simp at hlast

/-! ### Two clients and one delegation -/

/-- A client joins with a backchannel, and one of its grants runs until it has published its delegation. -/
def grantStart (file : FileKey) : List (Machine.Event Frame Input) :=
  joinWithBackchannel 0 [65] 0x100000001 ++
    request 3 (.grantReadDeleg { session := ⟨0x100000001, 1, 0⟩, file := file, fh := [], access := 1 }) 5

def grantFileKey : FileKey := ⟨1, ⟨[1], length_one_le⟩⟩

/-- The grant is counted, the delegation returned, and a v4 mutation asks for the file. -/
def askAfterReturn : List (Machine.Event Frame Input) :=
  grantStart grantFileKey ++ List.replicate 4 (Machine.Event.step 3 ({} : Input)) ++
    request 4 (.delegreturn ⟨1, ⟨1, 3, 1⟩⟩ 0x100000001 grantFileKey) 6 ++ [Machine.Event.spawn (.delegConflict grantFileKey)]

theorem deleg_counter_right_after_grant :
    ((server {}).run boot (grantStart grantFileKey ++ List.replicate 4 (Machine.Event.step 3 ({} : Input)))).state.CountsDelegs :=
  deleg_counter_right_at_rest {} _ (by decide +kernel) (by decide +kernel)

theorem deleg_gate_exact_after_return :
    ((server {}).run boot askAfterReturn).state.liveDelegs grantFileKey = [] :=
  deleg_gate_exact {} askAfterReturn 5 {} (.delegConflict grantFileKey) [] grantFileKey (by decide +kernel)
    (by decide +kernel) .counter (by decide +kernel)

/-- The delegation is published but not counted: `deleg_conflict` answers in its first and only section that
there is no conflict, with the live delegation in the file's list. -/
theorem deleg_gate_misses_published_grant :
    let c := (server {}).run boot (grantStart grantFileKey ++ [Machine.Event.spawn (.delegConflict grantFileKey)])
    anyRun.Permits (server {}) boot (grantStart grantFileKey ++ [Machine.Event.spawn (.delegConflict grantFileKey), .step 4 ({} : Input)]) ∧
      c.tasks[4]? = some [Frame.delegConflict grantFileKey] ∧
      (c.state.exec {} {} (.delegConflict grantFileKey)).2 = [.reply (.status .ok)] ∧
      c.state.liveDelegs grantFileKey ≠ [] := by
  intro c
  exact ⟨by decide +kernel, by decide +kernel, by decide +kernel, by decide +kernel⟩

end LightNfs
