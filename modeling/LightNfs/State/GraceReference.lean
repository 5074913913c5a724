import LightNfs.State.Grace

/-!
# Grace windows against a reference

The reference keeps, for each window, the most recent arming: whom it named and when, and what has
happened to it since. `arm_grace` adds to the sets of the window it finds, so the windows follow the
reference exactly while every arming names at least the owners its window has listed so far.
-/

namespace LightNfs

/-- A call on the grace windows, or the passing of time. -/
inductive GraceCall where
  | armGrace (fsid : UInt32) (owners : List Bytes)
  | endGrace (fsid : UInt32)
  | noteReclaimed (ownerId : Bytes)
  | inGrace (fsid : UInt32)
  | inStableList (fsid : UInt32) (ownerId : Bytes)
  | tick (nanoseconds : Nat)

namespace Shared

/-- The state after a call. Of the two queries, `in_grace` marks the windows it finds over. -/
def graceCall (cfg : Config) (s : Shared) : GraceCall → Shared
  | .armGrace fsid owners => s.armGrace cfg fsid owners
  | .endGrace fsid => s.endGrace fsid
  | .noteReclaimed ownerId => s.noteReclaimed ownerId
  | .inGrace _ => s.noteGrace
  | .inStableList _ _ => s
  | .tick nanoseconds => { s with clock := s.clock + nanoseconds }

def graceRun (cfg : Config) (s : Shared) (calls : List GraceCall) : Shared := calls.foldl (graceCall cfg) s

end Shared

/-! ### The reference -/

structure Arming where
  owners : List Bytes
  armedAt : Nat
  ended : Bool := false
  reclaimed : List Bytes := []

structure GraceLog where
  latest : UInt32 → Option Arming := fun _ => none
  clock : Nat

def Config.graceTime (cfg : Config) : Nat :=
  (if cfg.graceSeconds = 0 then cfg.leaseSeconds else cfg.graceSeconds).toNat * 1000000000

namespace Arming

/-- Younger than the grace time, not ended, and somebody it named has not reclaimed. -/
def Open (cfg : Config) (clock : Nat) (a : Arming) : Prop :=
  clock < a.armedAt + cfg.graceTime ∧ a.ended = false ∧ ∃ o ∈ a.owners, o ∉ a.reclaimed

end Arming

namespace GraceLog

def call (log : GraceLog) : GraceCall → GraceLog
  | .armGrace fsid owners =>
    { log with latest := Function.update log.latest fsid (some { owners, armedAt := log.clock }) }
  | .endGrace fsid =>
    { log with
      latest := fun id =>
        if fsid = 0 ∨ id = fsid then (log.latest id).map fun a => { a with ended := true } else log.latest id }
  | .noteReclaimed ownerId =>
    { log with latest := fun id => (log.latest id).map fun a => { a with reclaimed := ownerId :: a.reclaimed } }
  | .inGrace _ => log
  | .inStableList _ _ => log
  | .tick nanoseconds => { log with clock := log.clock + nanoseconds }

def run (log : GraceLog) (calls : List GraceCall) : GraceLog := calls.foldl call log

def InGrace (cfg : Config) (log : GraceLog) (fsid : UInt32) : Prop :=
  ∃ id a, (id = 0 ∨ id = fsid) ∧ log.latest id = some a ∧ a.Open cfg log.clock

def InStableList (log : GraceLog) (fsid : UInt32) (ownerId : Bytes) : Prop :=
  ∃ id a, (id = 0 ∨ id = fsid) ∧ log.latest id = some a ∧ ownerId ∈ a.owners

end GraceLog

/-! ### The windows follow the reference -/

/-- What a window keeps of its most recent arming. The deadline and the flag matter only while somebody
is still expected. -/
structure GraceWindow.Follows (cfg : Config) (clock : Nat) (w : GraceWindow) (a : Arming) : Prop where
  listed : ∀ o, o ∈ w.listed ↔ o ∈ a.owners
  pending : ∀ o, o ∈ w.pending ↔ a.ended = false ∧ o ∈ a.owners ∧ o ∉ a.reclaimed
  deadline : w.pending ≠ [] → w.deadline = a.armedAt + cfg.graceTime
  active : w.pending ≠ [] → clock < w.deadline → w.active = true

namespace GraceWindow

theorem live_iff (clock : Nat) (w : GraceWindow) :
    w.live clock = true ↔ w.active = true ∧ w.pending ≠ [] ∧ clock < w.deadline := by
  simp [live]

theorem Follows.live_iff_open {cfg : Config} {clock : Nat} {w : GraceWindow} {a : Arming}
    (h : w.Follows cfg clock a) : w.live clock = true ↔ a.Open cfg clock := by
  rw [live_iff]
  have hmem : w.pending ≠ [] ↔ a.ended = false ∧ ∃ o ∈ a.owners, o ∉ a.reclaimed := by
    constructor
    · intro hne
      obtain ⟨o, ho⟩ := List.exists_mem_of_ne_nil _ hne
      obtain ⟨hended, howed⟩ := (h.pending o).mp ho
      exact ⟨hended, o, howed⟩
    · rintro ⟨hended, o, howed⟩
      exact List.ne_nil_of_mem ((h.pending o).mpr ⟨hended, howed⟩)
  constructor
  · rintro ⟨-, hpending, hclock⟩
    rw [h.deadline hpending] at hclock
    exact ⟨hclock, hmem.mp hpending⟩
  · rintro ⟨hclock, howed⟩
    have hpending := hmem.mpr howed
    rw [← h.deadline hpending] at hclock
    exact ⟨h.active hpending hclock, hpending, hclock⟩

variable {cfg : Config} {clock : Nat} {w : GraceWindow} {a : Arming}

theorem Follows.pending_listed (h : w.Follows cfg clock a) : ∀ o ∈ w.pending, o ∈ w.listed :=
  fun o ho => (h.listed o).mpr ((h.pending o).mp ho).2.1

theorem follows_armed (cfg : Config) (clock : Nat) {owners : List Bytes} (hnames : [] ∉ owners) (hlisted : ∀ o ∈ w.listed, o ∈ owners)
    (hpending : ∀ o ∈ w.pending, o ∈ w.listed) (deadline : Nat) (active : Bool)
    (harmed : w.pending ∪ owners.filter (· ≠ []) ≠ [] → deadline = clock + cfg.graceTime ∧ active = true) :
    GraceWindow.Follows cfg clock
      { listed := w.listed ∪ owners.filter (· ≠ []), pending := w.pending ∪ owners.filter (· ≠ []), deadline, active }
      { owners, armedAt := clock } := by
  have hname : ∀ o ∈ owners, o ≠ [] := fun o ho hnil => hnames (hnil ▸ ho)
  refine ⟨fun o => ?_, fun o => ?_, fun hne => (harmed hne).1, fun hne _ => (harmed hne).2⟩
  · simp only [List.mem_union_iff, List.mem_filter, decide_eq_true_eq]
    grind
  · simp only [List.mem_union_iff, List.mem_filter, decide_eq_true_eq, List.not_mem_nil, not_false_eq_true, and_true]
    grind

theorem Follows.tick (h : w.Follows cfg clock a) (nanoseconds : Nat) : w.Follows cfg (clock + nanoseconds) a :=
  ⟨h.listed, h.pending, h.deadline, fun hpending hclock => h.active hpending (by omega)⟩

theorem Follows.note (h : w.Follows cfg clock a) :
    GraceWindow.Follows cfg clock { w with active := w.live clock } a :=
  ⟨h.listed, h.pending, h.deadline, fun hpending hclock =>
    (live_iff clock w).mpr ⟨h.active hpending hclock, hpending, hclock⟩⟩

theorem Follows.endGrace (h : w.Follows cfg clock a) :
    GraceWindow.Follows cfg clock { w with pending := [], active := false } { a with ended := true } :=
  ⟨h.listed, by simp, fun hne => absurd rfl hne, fun hne => absurd rfl hne⟩

theorem Follows.noteReclaimed (h : w.Follows cfg clock a) (ownerId : Bytes) :
    GraceWindow.Follows cfg clock
      { w with
        pending := w.pending.filter (· ≠ ownerId)
        active := w.active && !(w.pending.filter (· ≠ ownerId)).isEmpty }
      { a with reclaimed := ownerId :: a.reclaimed } := by
  have hsub : w.pending.filter (· ≠ ownerId) ≠ [] → w.pending ≠ [] := by
    intro hne hnil
    simp [hnil] at hne
  refine ⟨h.listed, ?_, fun hne => h.deadline (hsub hne), ?_⟩
  · intro o
    simp [h.pending]
    tauto
  · intro hne hclock
    simp only [h.active (hsub hne) hclock, Bool.true_and, Bool.not_eq_true']
    exact List.isEmpty_eq_false_iff.mpr hne

end GraceWindow

namespace Shared

/-- The owners an arming may name without disturbing the reference: real ids, and at least those the
window lists already. -/
def NamesListed (s : Shared) : GraceCall → Prop
  | .armGrace fsid owners => [] ∉ owners ∧ ∀ o ∈ ((s.grace.find fsid).getD {}).listed, o ∈ owners
  | _ => True

structure FollowsLog (cfg : Config) (s : Shared) (log : GraceLog) : Prop where
  clock : s.clock = log.clock
  windows : ∀ id, Option.Rel (GraceWindow.Follows cfg s.clock) (s.grace.find id) (log.latest id)
  -- the flag the IO paths read first is never down while a window is open
  flag : s.graceAny = false → ∀ id w, s.grace.find id = some w → w.live s.clock = false

variable {cfg : Config} {s : Shared} {log : GraceLog}

theorem FollowsLog.inGrace_iff (h : s.FollowsLog cfg log) (fsid : UInt32) :
    s.inGrace fsid = true ↔ log.InGrace cfg fsid := by
  have hwindow : ∀ id, (∃ w, s.grace.find id = some w ∧ w.live s.clock = true) ↔
      ∃ a, log.latest id = some a ∧ a.Open cfg log.clock := by
    intro id
    have hrel := h.windows id
    rw [← h.clock]
    generalize s.grace.find id = found, log.latest id = last at hrel
    cases hrel with
    | none => simp
    | some hfollows => simp [hfollows.live_iff_open]
  rw [inGrace, Bool.and_eq_true, Table.any_iff]
  constructor
  · rintro ⟨-, id, w, hfind, hlive⟩
    simp only [Bool.and_eq_true, Bool.or_eq_true, beq_iff_eq] at hlive
    obtain ⟨a, hlast, hopen⟩ := (hwindow id).mp ⟨w, hfind, hlive.1⟩
    exact ⟨id, a, hlive.2, hlast, hopen⟩
  · rintro ⟨id, a, hid, hlast, hopen⟩
    obtain ⟨w, hfind, hlive⟩ := (hwindow id).mpr ⟨a, hlast, hopen⟩
    have hflag : s.graceAny = true := by
      by_contra hdown
      rw [h.flag (Bool.eq_false_iff.mpr hdown) id w hfind] at hlive
      cases hlive
    exact ⟨hflag, id, w, hfind, by simp [hlive, hid]⟩

theorem FollowsLog.inStableList_iff (h : s.FollowsLog cfg log) (fsid : UInt32) (ownerId : Bytes) :
    s.inStableList fsid ownerId = true ↔ log.InStableList fsid ownerId := by
  have hwindow : ∀ id, ownerId ∈ ((s.grace.find id).getD {}).listed ↔
      ∃ a, log.latest id = some a ∧ ownerId ∈ a.owners := by
    intro id
    have hrel := h.windows id
    generalize s.grace.find id = found, log.latest id = last at hrel
    cases hrel with
    | none => simp
    | some hfollows => simp [hfollows.listed]
  simp only [inStableList, List.any_cons, List.any_nil, Bool.or_false, Bool.or_eq_true, List.contains_iff_mem, hwindow,
    GraceLog.InStableList]
  grind

/-! ### One call, and every run -/

theorem FollowsLog.mapWindows (h : s.FollowsLog cfg log) (flag : Bool) (f : UInt32 → GraceWindow → GraceWindow)
    (g : UInt32 → Arming → Arming)
    (hfollows : ∀ id w a, w.Follows cfg s.clock a → (f id w).Follows cfg s.clock (g id a))
    (hflag : flag = false → ∀ id w, s.grace.find id = some w → (f id w).live s.clock = false) :
    FollowsLog cfg { s with grace := s.grace.mapVals f, graceAny := flag }
      { log with latest := fun id => (log.latest id).map (g id) } := by
  refine ⟨h.clock, ?_, ?_⟩
  · intro id
    have hmapped : Option.Rel (GraceWindow.Follows cfg s.clock) ((s.grace.find id).map (f id))
        ((log.latest id).map (g id)) := by
      have hrel := h.windows id
      generalize s.grace.find id = found, log.latest id = last at hrel
      cases hrel with
      | none => exact .none
      | some hw => exact .some (hfollows id _ _ hw)
    rw [Table.find_mapVals]
    exact hmapped
  · intro hdown id w hfind
    rw [Table.find_mapVals] at hfind
    obtain ⟨v, hv, rfl⟩ := Option.map_eq_some_iff.mp hfind
    exact hflag hdown id v hv

theorem FollowsLog.tick (h : s.FollowsLog cfg log) (nanoseconds : Nat) :
    (s.graceCall cfg (.tick nanoseconds)).FollowsLog cfg (log.call (.tick nanoseconds)) := by
  refine ⟨congrArg (· + nanoseconds) h.clock, fun id => ?_, fun hdown id w hfind => ?_⟩
  · have hlater : Option.Rel (GraceWindow.Follows cfg (s.clock + nanoseconds)) (s.grace.find id) (log.latest id) := by
      have hrel := h.windows id
      generalize s.grace.find id = found, log.latest id = last at hrel
      cases hrel with
      | none => exact .none
      | some hw => exact .some (hw.tick nanoseconds)
    exact hlater
  · have hover := h.flag hdown id w hfind
    rw [Bool.eq_false_iff, Ne, GraceWindow.live_iff] at hover ⊢
    rintro ⟨hactive, hpending, hclock⟩
    have hbefore : s.clock + nanoseconds < w.deadline := hclock
    exact hover ⟨hactive, hpending, by omega⟩

theorem FollowsLog.noteGrace (h : s.FollowsLog cfg log) : s.noteGrace.FollowsLog cfg log := by
  rw [Shared.noteGrace]
  split
  · have hmap := h.mapWindows (s.grace.any fun _ w => w.live s.clock) (fun _ w => { w with active := w.live s.clock })
      (fun _ a => a) (fun _ _ _ hw => hw.note) ?_
    · simpa using hmap
    · intro hnone id w hfind
      have hover : w.live s.clock = false := by
        by_contra hlive
        rw [Bool.not_eq_false] at hlive
        rw [(Table.any_iff _ _).mpr ⟨id, w, hfind, hlive⟩] at hnone
        cases hnone
      rw [GraceWindow.live, hover, Bool.false_and]
  · exact h

theorem FollowsLog.endGrace (h : s.FollowsLog cfg log) (fsid : UInt32) :
    (s.endGrace fsid).FollowsLog cfg (log.call (.endGrace fsid)) := by
  have hmap := h.mapWindows (if fsid = 0 then false else s.graceAny)
    (fun id w => if fsid ≠ 0 ∧ id ≠ fsid then w else { w with pending := [], active := false })
    (fun id a => if fsid = 0 ∨ id = fsid then { a with ended := true } else a) ?_ ?_
  · rw [Shared.endGrace, GraceLog.call]
    convert hmap using 3 with id
    split <;> simp
  · intro id w a hw
    by_cases hid : fsid = 0 ∨ id = fsid
    · rw [if_pos hid, if_neg (by tauto)]
      exact hw.endGrace
    · rw [if_neg hid, if_pos (by tauto)]
      exact hw
  · intro hdown id w hfind
    split
    · next hother => exact h.flag (by simpa [hother.1] using hdown) id w hfind
    · simp [GraceWindow.live]

theorem FollowsLog.noteReclaimed (h : s.FollowsLog cfg log) (ownerId : Bytes) :
    (s.noteReclaimed ownerId).FollowsLog cfg (log.call (.noteReclaimed ownerId)) := by
  refine h.mapWindows s.graceAny _ _ (fun _ _ _ hw => hw.noteReclaimed ownerId) ?_
  intro hdown id w hfind
  have hover := h.flag hdown id w hfind
  by_contra hlive
  simp [GraceWindow.live] at hover hlive
  grind

theorem FollowsLog.pending_listed (h : s.FollowsLog cfg log) (fsid : UInt32) :
    ∀ o ∈ ((s.grace.find fsid).getD {}).pending, o ∈ ((s.grace.find fsid).getD {}).listed := by
  have hrel := h.windows fsid
  generalize s.grace.find fsid = found, log.latest fsid = last at hrel
  cases hrel with
  | none => simp
  | some hw => exact hw.pending_listed

theorem FollowsLog.put (h : s.FollowsLog cfg log) {fsid : UInt32} {w : GraceWindow} {a : Arming} (flag : Bool)
    (hw : w.Follows cfg s.clock a) (hflag : flag = false → s.graceAny = false ∧ w.live s.clock = false) :
    FollowsLog cfg { s with grace := s.grace.put fsid w, graceAny := flag }
      { log with latest := Function.update log.latest fsid (some a) } := by
  refine ⟨h.clock, fun id => ?_, fun hdown id v hfind => ?_⟩
  · by_cases hid : id = fsid
    · simpa [hid] using Option.Rel.some hw
    · simpa [hid] using h.windows id
  · rw [Table.find_put] at hfind
    split at hfind
    · cases hfind
      exact (hflag hdown).2
    · exact h.flag (hflag hdown).1 id v hfind

theorem FollowsLog.armGrace (h : s.FollowsLog cfg log) {fsid : UInt32} {owners : List Bytes}
    (hnames : s.NamesListed (.armGrace fsid owners)) :
    (s.armGrace cfg fsid owners).FollowsLog cfg (log.call (.armGrace fsid owners)) := by
  have hcall : log.call (.armGrace fsid owners) =
      { log with latest := Function.update log.latest fsid (some { owners, armedAt := s.clock }) } := by
    rw [GraceLog.call, h.clock]
  have hfollows := GraceWindow.follows_armed cfg s.clock hnames.1 hnames.2 (h.pending_listed fsid)
  rw [Shared.armGrace, hcall]
  dsimp only
  split
  · next hnobody =>
    have hnil := List.isEmpty_iff.mp hnobody
    refine h.put s.graceAny (hfollows _ _ fun hne => absurd hnil hne) fun hdown => ⟨hdown, ?_⟩
    simp only [GraceWindow.live, hnobody, Bool.true_or, Bool.not_true, Bool.and_false]
  · exact h.put true (hfollows _ _ fun _ => ⟨rfl, rfl⟩) nofun

theorem FollowsLog.call (h : s.FollowsLog cfg log) (e : GraceCall) (hnames : s.NamesListed e) :
    (s.graceCall cfg e).FollowsLog cfg (log.call e) := by
  cases e with
  | armGrace fsid owners => exact h.armGrace hnames
  | endGrace fsid => exact h.endGrace fsid
  | noteReclaimed ownerId => exact h.noteReclaimed ownerId
  | inGrace fsid => exact h.noteGrace
  | inStableList fsid ownerId => exact h
  | tick nanoseconds => exact h.tick nanoseconds

/-- Every call of the run keeps to `NamesListed` in the state it is made in. -/
def AllNameListed (cfg : Config) (s : Shared) : List GraceCall → Prop
  | [] => True
  | e :: calls => s.NamesListed e ∧ (s.graceCall cfg e).AllNameListed cfg calls

instance (s : Shared) (e : GraceCall) : Decidable (s.NamesListed e) := by
  apply @GraceCall.casesOn _ e <;> intros <;> dsimp only [NamesListed] <;> infer_instance

instance decidableAllNameListed (cfg : Config) (s : Shared) : (calls : List GraceCall) → Decidable (s.AllNameListed cfg calls)
  | [] => inferInstanceAs (Decidable True)
  | e :: calls =>
    have := decidableAllNameListed cfg (s.graceCall cfg e) calls
    inferInstanceAs (Decidable (_ ∧ _))

theorem FollowsLog.run (h : s.FollowsLog cfg log) {calls : List GraceCall} (hnames : s.AllNameListed cfg calls) :
    (s.graceRun cfg calls).FollowsLog cfg (log.run calls) := by
  induction calls generalizing s log with
  | nil => exact h
  | cons e calls ih => exact ih (h.call e hnames.1) hnames.2

end Shared

/-- The windows answer as the reference does after every run from a start without windows, as long as
each arming names real ids and everybody its window lists already. -/
theorem grace_windows_match_reference (cfg : Config) (s : Shared) (hstart : s.grace = ∅) (calls : List GraceCall)
    (hnames : s.AllNameListed cfg calls) (fsid : UInt32) (ownerId : Bytes) :
    let after := s.graceRun cfg calls
    let log := GraceLog.run { clock := s.clock } calls
    (after.inGrace fsid = true ↔ log.InGrace cfg fsid) ∧
      (after.inStableList fsid ownerId = true ↔ log.InStableList fsid ownerId) := by
  have hfollows : s.FollowsLog cfg { clock := s.clock } := by
    refine ⟨rfl, fun id => ?_, fun _ id w hfind => ?_⟩
    · rw [hstart]
      exact .none
    · rw [hstart] at hfind
      cases hfind
  have hrun := hfollows.run hnames
  exact ⟨hrun.inGrace_iff fsid, hrun.inStableList_iff fsid ownerId⟩

/-- Two takeovers of export 1; the second names the owner of the first and one more. -/
theorem grace_windows_match_reference_on_takeovers :
    let calls : List GraceCall :=
      [.armGrace 1 [[97]], .tick 90000000000, .inGrace 1, .armGrace 1 [[97], [98]], .noteReclaimed [97]]
    ((Shared.graceRun {} {} calls).inGrace 1 = true ↔ GraceLog.InGrace {} (GraceLog.run { clock := 0 } calls) 1) ∧
      ((Shared.graceRun {} {} calls).inStableList 1 [98] = true ↔
        GraceLog.InStableList (GraceLog.run { clock := 0 } calls) 1 [98]) := by
  intro calls
  have hnames : Shared.AllNameListed {} {} calls := by decide +kernel
  exact grace_windows_match_reference {} {} rfl calls hnames 1 [98]

/-- Owner `a` of the first takeover never came back, its window ran out, and the second takeover named only
`b`, who has reclaimed. Nobody is owed a reclaim, yet the export stays in grace for `a`, who may also still
reclaim on it. -/
theorem grace_window_keeps_earlier_arming :
    let calls : List GraceCall :=
      [.armGrace 1 [[97]], .tick 90000000000, .inGrace 1, .armGrace 1 [[98]], .noteReclaimed [98]]
    let after := Shared.graceRun {} {} calls
    let log := GraceLog.run { clock := 0 } calls
    (after.inGrace 1 = true ∧ ¬ log.InGrace {} 1) ∧ after.inStableList 1 [97] = true ∧ ¬ log.InStableList 1 [97] := by
  intro calls after log
  have h0 : log.latest 0 = none := by simp [log, calls, GraceLog.run, GraceLog.call]
  have h1 : log.latest 1 = some { owners := [[98]], armedAt := 90000000000, reclaimed := [[98]] } := by
    simp [log, calls, GraceLog.run, GraceLog.call]
  refine ⟨⟨by decide +kernel, ?_⟩, by decide +kernel, ?_⟩
  · rintro ⟨id, a, rfl | rfl, hlast, -, -, o, ho, hreclaimed⟩
    · rw [h0] at hlast
      cases hlast
    · rw [h1] at hlast
      cases hlast
      exact hreclaimed ho
  · rintro ⟨id, a, rfl | rfl, hlast, ho⟩
    · rw [h0] at hlast
      cases hlast
    · rw [h1] at hlast
      cases hlast
      exact absurd ho (by decide)

/-! ### The shortcut of `in_grace` -/

namespace Shared

/-- What `in_grace(fsid)` answers once it has taken the lock and looked at every window. -/
def inGraceLocked (s : Shared) (fsid : UInt32) : Bool :=
  s.grace.any fun id w => w.live s.clock && (id == 0 || id == fsid)

/-- A lowered flag promises that no window is live. A raised one promises nothing: windows end by
themselves, and nobody lowers it until a reader looks. -/
def FlagCovers (s : Shared) : Prop :=
  s.graceAny = false → ∀ id w, s.grace.find id = some w → w.live s.clock = false

section

variable {s : Shared}

theorem FlagCovers.inGrace_eq (h : s.FlagCovers) (fsid : UInt32) : s.inGrace fsid = s.inGraceLocked fsid := by
  cases hflag : s.graceAny with
  | true => rw [inGrace, hflag, Bool.true_and, inGraceLocked]
  | false =>
    rw [inGrace, hflag, Bool.false_and, eq_comm, ← Bool.not_eq_true, inGraceLocked, Table.any_iff]
    rintro ⟨id, w, hfind, hlive⟩
    rw [h hflag id w hfind, Bool.false_and] at hlive
    cases hlive

theorem FlagCovers.tick (h : s.FlagCovers) (nanoseconds : Nat) :
    FlagCovers { s with clock := s.clock + nanoseconds } := by
  intro hflag id w hfind
  have hlive := h hflag id w hfind
  rw [← Bool.not_eq_true, GraceWindow.live_iff] at hlive ⊢
  rintro ⟨hactive, hpending, hclock⟩
  refine hlive ⟨hactive, hpending, ?_⟩
  have hclock : s.clock + nanoseconds < w.deadline := hclock
  omega

theorem FlagCovers.armGrace (h : s.FlagCovers) (cfg : Config) (fsid : UInt32) (owners : List Bytes) :
    (s.armGrace cfg fsid owners).FlagCovers := by
  by_cases hnobody : (((s.grace.find fsid).getD {}).pending ∪ owners.filter (· ≠ [])).isEmpty
  · -- nobody to wait for: the flag keeps its value and the window stored is not live
    rw [Shared.armGrace, if_pos hnobody]
    intro hflag id w hfind
    by_cases hid : id = fsid
    · rw [Table.find_put, if_pos hid] at hfind
      obtain rfl := Option.some.inj hfind
      show (_ && !(_ || _)) = false
      rw [hnobody, Bool.true_or, Bool.not_true, Bool.and_false]
    · rw [Table.find_put, if_neg hid] at hfind
      exact h hflag id w hfind
  · rw [Shared.armGrace, if_neg hnobody]
    intro hflag
    cases hflag

theorem FlagCovers.endGrace (h : s.FlagCovers) (fsid : UInt32) : (s.endGrace fsid).FlagCovers := by
  intro hflag id w hfind
  have hfind : (s.grace.find id).map _ = some w := (Table.find_mapVals _ _ _).symm.trans hfind
  obtain ⟨old, hold, rfl⟩ := Option.map_eq_some_iff.mp hfind
  by_cases hother : fsid ≠ 0 ∧ id ≠ fsid
  · rw [if_pos hother]
    have hflag : (if fsid = 0 then false else s.graceAny) = false := hflag
    rw [if_neg hother.1] at hflag
    exact h hflag id old hold
  · rw [if_neg hother]
    rfl

theorem FlagCovers.noteReclaimed (h : s.FlagCovers) (ownerId : Bytes) : (s.noteReclaimed ownerId).FlagCovers := by
  intro hflag id w hfind
  have hfind : (s.grace.find id).map _ = some w := (Table.find_mapVals _ _ _).symm.trans hfind
  obtain ⟨old, hold, rfl⟩ := Option.map_eq_some_iff.mp hfind
  have hlive := h hflag id old hold
  rw [← Bool.not_eq_true, GraceWindow.live_iff] at hlive ⊢
  rintro ⟨hactive, hpending, hclock⟩
  refine hlive ⟨?_, ?_, hclock⟩
  · exact (Bool.and_eq_true _ _ ▸ hactive).1
  · intro hnil
    exact hpending (by simp [hnil])

theorem FlagCovers.noteGrace (h : s.FlagCovers) : s.noteGrace.FlagCovers := by
  cases hraised : s.graceAny with
  | false =>
    rw [Shared.noteGrace, if_neg (by rw [hraised]; decide)]
    exact h
  | true =>
    rw [Shared.noteGrace, if_pos hraised]
    intro hflag id w hfind
    have hfind : (s.grace.find id).map _ = some w := (Table.find_mapVals _ _ _).symm.trans hfind
    obtain ⟨old, hold, rfl⟩ := Option.map_eq_some_iff.mp hfind
    have hover : old.live s.clock = false := by
      by_contra hlive
      have hany : s.grace.any (fun _ w => w.live s.clock) = true :=
        (Table.any_iff _ _).mpr ⟨id, old, hold, Bool.of_not_eq_false hlive⟩
      exact Bool.false_ne_true (hflag.symm.trans hany)
    show (old.live s.clock && _) = false
    rw [hover, Bool.false_and]

theorem FlagCovers.call (h : s.FlagCovers) (cfg : Config) (e : GraceCall) : (s.graceCall cfg e).FlagCovers := by
  cases e with
  | armGrace fsid owners => exact h.armGrace cfg fsid owners
  | endGrace fsid => exact h.endGrace fsid
  | noteReclaimed ownerId => exact h.noteReclaimed ownerId
  | inGrace _ => exact h.noteGrace
  | inStableList _ _ => exact h
  | tick nanoseconds => exact h.tick nanoseconds

theorem FlagCovers.run (h : s.FlagCovers) (cfg : Config) (calls : List GraceCall) :
    (s.graceRun cfg calls).FlagCovers := by
  induction calls generalizing s with
  | nil => exact h
  | cons e calls ih => exact ih (h.call cfg e)

end

end Shared

/-- After every run from a start without windows `in_grace` answers as a look at every window under the
lock would, also when the lowered flag spares it the look. -/
theorem inGrace_shortcut_exact (cfg : Config) (s : Shared) (hstart : s.grace = ∅) (calls : List GraceCall)
    (fsid : UInt32) : (s.graceRun cfg calls).inGrace fsid = (s.graceRun cfg calls).inGraceLocked fsid := by
  have hcovers : s.FlagCovers := by
    intro _ id w hfind
    rw [hstart] at hfind
    cases hfind
  exact (hcovers.run cfg calls).inGrace_eq fsid

/-- Export 1 is taken over while the window of the server's start is open; that one runs out, and the
reader that finds it over leaves the flag to the other. -/
theorem inGrace_shortcut_exact_on_takeover :
    let calls : List GraceCall :=
      [.armGrace 0 [[97]], .tick 60000000000, .armGrace 1 [[98]], .tick 40000000000, .inGrace 2, .noteReclaimed [98]]
    (Shared.graceRun {} {} calls).inGrace 1 = (Shared.graceRun {} {} calls).inGraceLocked 1 := by
  intro calls
  exact inGrace_shortcut_exact {} {} rfl calls 1

end LightNfs
