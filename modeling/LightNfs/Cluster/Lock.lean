import Mathlib
import LightNfs.Lib.System

/-!
# The lock files of the shared store

`PosixClusterStore::lock`: a gateway takes `<name>.lock` by creating it exclusively and writes a time stamp into
it; the guard unlinks it again. A gateway that finds the file there reads the stamp, or the file's own time, and
unlinks a file that is older than `stale_lock_after` before it tries once more. Each of these is a step of its
own on a directory all gateways share.
-/

namespace LightNfs

/-- The lock file. `id` and `creator` say which file it is; no step of a gateway reads them. -/
structure LockFile where
  id : Nat
  creator : Nat
  created : Int
  mtime : Int
  stamp : Option Int := none
deriving DecidableEq

/-- Where a gateway is in `lock` and its guard. `id` and `since` are those of the file it created, `seen` is the file
it looked at. -/
inductive LockPhase where
  | idle
  /-- About to create the file; the flag says that it has reclaimed one already. -/
  | opening (reclaimed : Bool)
  | created (id : Nat) (since : Int)
  /-- The time for the stamp is taken. -/
  | stamping (id : Nat) (since time : Int)
  | holding (id : Nat) (since : Int)
  /-- The file was there; what follows is `lock_is_stale`. -/
  | reading
  | statting
  | judging (seen : Nat) (taken : Int)
  | reclaiming (seen : Option Nat)
  | crashed
deriving DecidableEq

structure LockDir where
  now : Int := 0
  nextId : Nat := 0
  file : Option LockFile := none
  phase : Nat → LockPhase := fun _ => .idle

inductive LockEvent where
  | tick (ms : Nat)
  | crash (g : Nat)
  /-- The next step of a gateway. -/
  | go (g : Nat)
  /-- A waiting gateway gives up with EBUSY. -/
  | giveUp (g : Nat)
  /-- The write of a stamp fails, which `lock` does not look at. -/
  | stampFails (g : Nat)

namespace LockPhase

/-- The gateway is between its create and the end of its guard. -/
def owns : LockPhase → Option (Nat × Int)
  | created id since | stamping id since _ | holding id since => some (id, since)
  | _ => none

/-- Between a successful `lock` and the release of the guard. -/
def holds : LockPhase → Bool
  | holding .. => true
  | _ => false

end LockPhase

namespace LockDir

variable (stale : Nat)
variable (s : LockDir)

def enter (g : Nat) (p : LockPhase) : LockDir := { s with phase := Function.update s.phase g p }

/-- `open` with `O_CREAT | O_EXCL`. A gateway that has reclaimed once waits instead of judging again. -/
def openExclusive (g : Nat) (reclaimed : Bool) : LockDir :=
  match s.file with
  | none =>
    { s with file := some ⟨s.nextId, g, s.now, s.now, none⟩, nextId := s.nextId + 1 }.enter g (.created s.nextId s.now)
  | some _ => if reclaimed then s else s.enter g .reading

/-- The write of the stamp, through the descriptor of the file that was created. -/
def writeStamp (id : Nat) (time : Int) : LockDir :=
  match s.file with
  | some f => if f.id = id then { s with file := some { f with stamp := some time, mtime := s.now } } else s
  | none => s

/-- The read in `lock_is_stale`; a file without a stamp that parses to a positive number is judged by its own
time. -/
def readStamp (g : Nat) : LockDir :=
  match s.file.bind fun f => f.stamp.map (f.id, ·) with
  | some (id, taken) => if taken ≤ 0 then s.enter g .statting else s.enter g (.judging id taken)
  | none => s.enter g .statting

/-- The `stat`; a file that has vanished counts as stale. -/
def statFile (g : Nat) : LockDir :=
  match s.file with
  | none => s.enter g (.reclaiming none)
  | some f => s.enter g (.judging f.id f.mtime)

/-- The comparison with the clock; a live lock is tried again. -/
def judge (g seen : Nat) (taken : Int) : LockDir :=
  if s.now - taken > stale then s.enter g (.reclaiming (some seen)) else s.enter g (.opening false)

def unlink : LockDir := { s with file := none }

def go (g : Nat) : LockDir :=
  match s.phase g with
  | .idle => s.enter g (.opening false)
  | .opening reclaimed => s.openExclusive g reclaimed
  | .created id since => s.enter g (.stamping id since s.now)
  | .stamping id since time => (s.writeStamp id time).enter g (.holding id since)
  -- The guard's destructor.
  | .holding _ _ => s.unlink.enter g .idle
  | .reading => s.readStamp g
  | .statting => s.statFile g
  | .judging seen taken => s.judge stale g seen taken
  | .reclaiming _ => s.unlink.enter g (.opening true)
  | .crashed => s

def step : LockEvent → LockDir
  | .tick ms => { s with now := s.now + ms }
  | .crash g => s.enter g .crashed
  | .go g => s.go stale g
  | .giveUp g =>
    match s.phase g with
    | .opening _ => s.enter g .idle
    | _ => s
  | .stampFails g =>
    match s.phase g with
    | .stamping id since _ => s.enter g (.holding id since)
    | _ => s

end LockDir

/-- Gateways on one lock of the store, with `stale_lock_after`. -/
def lockFiles (stale : Nat) : System LockDir LockEvent := ⟨LockDir.step stale⟩

@[simp] theorem lockFiles_step (stale : Nat) (s : LockDir) (e : LockEvent) :
    (lockFiles stale).step s e = s.step stale e := rfl

/-! ### Promises of the environment -/

/-- No live gateway keeps the lock longer than `stale_lock_after`: time does not pass beyond that. -/
def Timely (stale : Nat) (s : LockDir) : LockEvent → Prop
  | .tick ms => ∀ g id since, (s.phase g).owns = some (id, since) → s.now + ms - since ≤ stale
  | _ => True

/-- A gateway that unlinks a lock it judged stale finds the file it judged, or none. -/
def ReclaimsJudged (s : LockDir) : LockEvent → Prop
  | .go g =>
    match s.phase g with
    | .reclaiming seen => ∀ f, s.file = some f → seen = some f.id
    | _ => True
  | _ => True

/-! ### Invariant -/

/-- What is known of a phase. A gateway that owns a file finds it in place, as old as the gateway knows; a
judgement is about a file at least as old as the time it uses. -/
def LockPhase.Sound (stale : Nat) (s : LockDir) (g : Nat) : LockPhase → Prop
  | created id since | holding id since =>
    s.now - since ≤ stale ∧ ∃ f, s.file = some f ∧ f.id = id ∧ f.creator = g ∧ f.created = since
  | stamping id since time =>
    since ≤ time ∧ s.now - since ≤ stale ∧ ∃ f, s.file = some f ∧ f.id = id ∧ f.creator = g ∧ f.created = since
  | judging seen taken => seen < s.nextId ∧ ∀ f, s.file = some f → f.id = seen → f.created ≤ taken
  | reclaiming (some seen) => seen < s.nextId ∧ ∀ f, s.file = some f → f.id = seen → stale < s.now - f.created
  | _ => True

structure LocksSound (stale : Nat) (s : LockDir) : Prop where
  fresh : ∀ f, s.file = some f → f.id < s.nextId
  times : ∀ f, s.file = some f → f.created ≤ f.mtime ∧ f.created ≤ s.now ∧ ∀ t, f.stamp = some t → f.created ≤ t
  phases : ∀ g, (s.phase g).Sound stale s g

namespace LockDir

variable (s : LockDir) (g : Nat) (p : LockPhase)

@[simp] theorem enter_file : (s.enter g p).file = s.file := rfl

@[simp] theorem enter_now : (s.enter g p).now = s.now := rfl

@[simp] theorem enter_nextId : (s.enter g p).nextId = s.nextId := rfl

theorem enter_phase (g g' : Nat) (p : LockPhase) :
    (s.enter g p).phase g' = if g' = g then p else s.phase g' := Function.update_apply ..

end LockDir

namespace LocksSound

variable {stale : Nat} {s : LockDir} {g : Nat}

theorem owner (h : LocksSound stale s) {id : Nat} {since : Int} (howns : (s.phase g).owns = some (id, since)) :
    s.now - since ≤ stale ∧ ∃ f, s.file = some f ∧ f.id = id ∧ f.creator = g ∧ f.created = since := by
  have hphase := h.phases g
  revert howns hphase
  cases s.phase g <;> simp +contextual [LockPhase.owns, LockPhase.Sound]

theorem owner_unique (h : LocksSound stale s) {g' : Nat} {own own' : Nat × Int}
    (howns : (s.phase g).owns = some own) (howns' : (s.phase g').owns = some own') : g = g' := by
  obtain ⟨-, f, hf, -, rfl, -⟩ := h.owner howns
  obtain ⟨-, f', hf', -, rfl, -⟩ := h.owner howns'
  rw [Option.some.inj (hf.symm.trans hf')]

theorem enter (h : LocksSound stale s) {p : LockPhase} (hp : p.Sound stale s g) : LocksSound stale (s.enter g p) where
  fresh := h.fresh
  times := h.times
  phases g' := by
    rw [LockDir.enter_phase]
    split
    case isTrue heq => exact heq ▸ hp
    case isFalse => exact h.phases g'

theorem openExclusive (h : LocksSound stale s) (reclaimed : Bool) :
    LocksSound stale (s.openExclusive g reclaimed) := by
  unfold LockDir.openExclusive
  split
  case h_2 => split; exacts [h, h.enter trivial]
  case h_1 hnone =>
    refine LocksSound.enter ⟨?_, ?_, fun g' => ?_⟩ ⟨by simp, _, rfl, rfl, rfl, rfl⟩
    · rintro f ⟨⟩
      exact Nat.lt_succ_self _
    · rintro f ⟨⟩
      simp
    · have hphase := h.phases g'
      revert hphase
      show (s.phase g').Sound stale s g' → (s.phase g').Sound stale _ g'
      cases s.phase g' with
      | created | stamping | holding => simp [LockPhase.Sound, hnone]
      | judging seen taken =>
        rintro ⟨hseen, -⟩
        refine ⟨by simp only; omega, ?_⟩
        rintro f ⟨⟩ rfl
        exact absurd hseen (Nat.lt_irrefl _)
      | reclaiming seen =>
        cases seen with
        | none => exact id
        | some seen =>
          rintro ⟨hseen, -⟩
          refine ⟨by simp only; omega, ?_⟩
          rintro f ⟨⟩ rfl
          exact absurd hseen (Nat.lt_irrefl _)
      | _ => exact id

theorem writeStamp (h : LocksSound stale s) {id : Nat} {time : Int}
    (htime : ∀ f, s.file = some f → f.id = id → f.created ≤ time) : LocksSound stale (s.writeStamp id time) := by
  unfold LockDir.writeStamp
  split
  case h_2 => exact h
  case h_1 f hf =>
    split
    case isFalse => exact h
    case isTrue hid =>
      refine ⟨?_, ?_, fun g' => ?_⟩
      · rintro f' ⟨⟩
        exact h.fresh f hf
      · rintro f' ⟨⟩
        have := h.times f hf
        have := htime f hf hid
        simp_all
      · have hphase := h.phases g'
        revert hphase
        show (s.phase g').Sound stale s g' → (s.phase g').Sound stale _ g'
        cases s.phase g' with
        | reclaiming seen => cases seen <;> simp [LockPhase.Sound, hf]
        | _ => simp [LockPhase.Sound, hf]

theorem unlink_enter (h : LocksSound stale s) {p : LockPhase} (hp : ∀ s, p.Sound stale s g)
    (hfree : ∀ g', g' ≠ g → (s.phase g').owns = none) : LocksSound stale (s.unlink.enter g p) := by
  refine ⟨by simp [LockDir.unlink], by simp [LockDir.unlink], fun g' => ?_⟩
  rw [LockDir.enter_phase]
  split
  case isTrue heq =>
    subst heq
    exact hp _
  case isFalse hne =>
    have hphase := h.phases g'
    have hnone := hfree g' hne
    revert hphase hnone
    show (s.phase g').Sound stale s g' → (s.phase g').owns = none → (s.phase g').Sound stale _ g'
    cases s.phase g' with
    | reclaiming seen => cases seen <;> simp +contextual [LockPhase.Sound, LockDir.unlink]
    | _ => simp +contextual [LockPhase.Sound, LockPhase.owns, LockDir.unlink]

theorem readStamp (h : LocksSound stale s) : LocksSound stale (s.readStamp g) := by
  unfold LockDir.readStamp
  split
  case h_2 => exact h.enter trivial
  case h_1 id taken hread =>
    obtain ⟨f, hf, hstamp⟩ := Option.bind_eq_some_iff.1 hread
    obtain ⟨t, ht, ⟨⟩⟩ := Option.map_eq_some_iff.1 hstamp
    split
    · exact h.enter trivial
    · refine h.enter ⟨h.fresh f hf, fun f' hf' _ => ?_⟩
      cases hf.symm.trans hf'
      exact (h.times f hf).2.2 _ ht

theorem statFile (h : LocksSound stale s) : LocksSound stale (s.statFile g) := by
  unfold LockDir.statFile
  split
  case h_1 => exact h.enter trivial
  case h_2 f hf =>
    refine h.enter ⟨h.fresh f hf, fun f' hf' _ => ?_⟩
    cases hf.symm.trans hf'
    exact (h.times f hf).1

theorem judge (h : LocksSound stale s) {seen : Nat} {taken : Int} (hphase : s.phase g = .judging seen taken) :
    LocksSound stale (s.judge stale g seen taken) := by
  have hseen := h.phases g
  rw [hphase] at hseen
  unfold LockDir.judge
  split
  case isFalse => exact h.enter trivial
  case isTrue hold =>
    refine h.enter ⟨hseen.1, fun f hf hid => ?_⟩
    have := hseen.2 f hf hid
    omega

theorem reclaim_free (h : LocksSound stale s) {seen : Option Nat} (hphase : s.phase g = .reclaiming seen)
    (hjudged : ∀ f, s.file = some f → seen = some f.id) (g' : Nat) : (s.phase g').owns = none := by
  by_contra howns
  obtain ⟨⟨id, since⟩, howns⟩ := Option.ne_none_iff_exists'.1 howns
  obtain ⟨hkept, f, hf, -, -, rfl⟩ := h.owner howns
  have hseen := h.phases g
  rw [hphase, hjudged f hf] at hseen
  have := hseen.2 f hf rfl
  omega

theorem go (h : LocksSound stale s) (hjudged : ReclaimsJudged s (.go g)) : LocksSound stale (s.go stale g) := by
  have hown := h.phases g
  have hfree : (s.phase g).owns ≠ none → ∀ g', g' ≠ g → (s.phase g').owns = none := by
    intro howns g' hne
    obtain ⟨own, howns⟩ := Option.ne_none_iff_exists'.1 howns
    by_contra howns'
    obtain ⟨own', howns'⟩ := Option.ne_none_iff_exists'.1 howns'
    exact hne (h.owner_unique howns' howns)
  simp only [ReclaimsJudged] at hjudged
  unfold LockDir.go
  split <;> rename_i hphase <;> simp only [hphase] at hown hfree hjudged
  · exact h.enter trivial
  · exact h.openExclusive _
  · obtain ⟨hkept, f, hf, hid, hg, rfl⟩ := hown
    exact h.enter ⟨(h.times f hf).2.1, hkept, f, hf, hid, hg, rfl⟩
  · obtain ⟨htime, hkept, f, hf, rfl, hg, rfl⟩ := hown
    refine LocksSound.enter (h.writeStamp ?_) ?_
    · intro f' hf' _
      cases hf.symm.trans hf'
      exact htime
    · simp [LockPhase.Sound, LockDir.writeStamp, hf, hg, hkept]
  · exact h.unlink_enter (fun _ => trivial) (hfree (by simp [LockPhase.owns]))
  · exact h.readStamp
  · exact h.statFile
  · exact h.judge hphase
  · exact h.unlink_enter (fun _ => trivial) fun g' _ => h.reclaim_free hphase hjudged g'
  · exact h

theorem tick (h : LocksSound stale s) {ms : Nat} (htimely : Timely stale s (.tick ms)) :
    LocksSound stale { s with now := s.now + ms } where
  fresh := h.fresh
  times f hf := by
    have := h.times f hf
    refine ⟨this.1, ?_, this.2.2⟩
    simp only
    omega
  phases g := by
    have hphase := h.phases g
    have hkept := htimely g
    revert hphase hkept
    show (s.phase g).Sound stale s g → _ → (s.phase g).Sound stale _ g
    cases s.phase g with
    | created id since | holding id since =>
      intro hphase hkept
      exact ⟨hkept id since rfl, hphase.2⟩
    | stamping id since time =>
      intro hphase hkept
      exact ⟨hphase.1, hkept id since rfl, hphase.2.2⟩
    | reclaiming seen =>
      cases seen with
      | none => exact fun _ _ => trivial
      | some seen =>
        intro hphase _
        refine ⟨hphase.1, fun f hf hid => ?_⟩
        have := hphase.2 f hf hid
        simp only
        omega
    | _ => exact fun hphase _ => hphase

theorem step (h : LocksSound stale s) {e : LockEvent} (htimely : Timely stale s e) (hjudged : ReclaimsJudged s e) :
    LocksSound stale (s.step stale e) := by
  cases e with
  | tick ms => exact h.tick htimely
  | crash g => exact h.enter trivial
  | go g => exact h.go hjudged
  | giveUp g =>
    simp only [LockDir.step]
    split
    · exact h.enter trivial
    · exact h
  | stampFails g =>
    simp only [LockDir.step]
    split
    case h_1 hphase =>
      have hown := h.phases g
      rw [hphase] at hown
      exact h.enter hown.2
    case h_2 => exact h

theorem initial (stale : Nat) (now : Int) : LocksSound stale { now } :=
  ⟨by simp, by simp, fun _ => trivial⟩

end LocksSound

/-! ### Exclusion -/

/-- While every reclaimed file is the one that was judged, one gateway at a time holds the lock, and the file its
release unlinks is its own. -/
theorem lock_excludes (stale : Nat) (now : Int) (es : List LockEvent)
    (hes : (lockFiles stale).Meets (fun s e => Timely stale s e ∧ ReclaimsJudged s e) { now } es) :
    let s := (lockFiles stale).run { now } es
    (∀ g g', (s.phase g).holds = true → (s.phase g').holds = true → g = g') ∧
      ∀ g id since, s.phase g = .holding id since → ∃ f, s.file = some f ∧ f.id = id ∧ f.creator = g := by
  intro s
  have h : LocksSound stale s :=
    System.run_keeps (fun s e hs he => hs.step he.1 he.2) (LocksSound.initial stale now) hes
  have howns : ∀ {g}, (s.phase g).holds = true → ∃ own, (s.phase g).owns = some own := by
    intro g
    cases s.phase g <;> simp [LockPhase.holds, LockPhase.owns]
  refine ⟨fun g g' hg hg' => ?_, fun g id since hphase => ?_⟩
  · obtain ⟨own, hown⟩ := howns hg
    obtain ⟨own', hown'⟩ := howns hg'
    exact h.owner_unique hown hown'
  · obtain ⟨-, f, hf, hid, hg, -⟩ := h.owner (g := g) (by rw [hphase]; rfl)
    exact ⟨f, hf, hid, hg⟩

/-- Gateway 0 crashes with the lock, gateway 1 reclaims its file seven seconds later. -/
def reclaimRun : List LockEvent :=
  [.go 0, .go 0, .go 0, .go 0, .crash 0, .tick 7000, .go 1, .go 1, .go 1, .go 1, .go 1, .go 1, .go 1, .go 1]

theorem lock_excludes_reclaim :
    let s := (lockFiles 6000).run { now := 1 } reclaimRun
    s.phase 1 = .holding 1 7001 ∧ ∀ g, (s.phase g).holds = true → g = 1 := by
  have hphase : ((lockFiles 6000).run { now := 1 } reclaimRun).phase 1 = .holding 1 7001 := by decide +kernel
  have hes : (lockFiles 6000).Meets (fun s e => Timely 6000 s e ∧ ReclaimsJudged s e) { now := 1 } reclaimRun := by
    simp only [System.Meets, reclaimRun, lockFiles_step, LockDir.step, LockDir.go, LockDir.openExclusive,
      LockDir.writeStamp, LockDir.readStamp, LockDir.judge, LockDir.unlink, LockDir.enter]
    simp [Timely, ReclaimsJudged, Function.update_apply, LockPhase.owns]
    -- What is left is the tick: the only gateway that owned the file has crashed.
    intro g id since
    by_cases hg : g = 0 <;> simp [hg]
  exact ⟨hphase, fun g hg => (lock_excludes 6000 1 reclaimRun hes).1 g 1 hg (by rw [hphase]; rfl)⟩

/-- Gateway 0 releases between gateway 1's `open` and its `stat`; gateway 1 takes the vanished file for a stale one
and unlinks the lock gateway 2 has taken in between. -/
def vanishedRun : List LockEvent :=
  [.go 0, .go 0, .go 0, .go 0, .go 1, .go 1, .go 0, .go 1, .go 1, .go 2, .go 2, .go 2, .go 2,
    .go 1, .go 1, .go 1, .go 1]

/-- No gateway crashes and no time passes, and yet two gateways hold the lock, and the release of one of them unlinks
the other's file. -/
theorem lock_held_twice :
    let s := (lockFiles 6000).run { now := 1 } vanishedRun
    (lockFiles 6000).Meets (Timely 6000) { now := 1 } vanishedRun ∧
      (s.phase 1).holds = true ∧ (s.phase 2).holds = true ∧ s.file.map (·.creator) = some 1 ∧
      ((lockFiles 6000).step s (.go 2)).file = none := by
  refine ⟨?_, by decide +kernel, by decide +kernel, by decide +kernel, by decide +kernel⟩
  simp [System.Meets, Timely, vanishedRun]

end LightNfs
