import Mathlib
import LightNfs.Lib.System
import LightNfs.Lock.Manager

/-!
# Storage locks of the Lustre backend

`LustreLockMgr` keeps one descriptor for each object and owner and locks through it. A section under
the mutex, an `open`, a `close` and an `fcntl` are a step each, calls on any number of threads take
them in any order, and the kernel may hand out any descriptor number that is not open.
-/

namespace LightNfs

open Function

/-! ### Ranges -/

/-- `struct flock`: the first byte and the length, 0 for "to the end". -/
structure Flock where
  start : Int
  len : Nat
deriving DecidableEq

def makeFlock (range : LockRange) : Flock :=
  let last := if range.length = uint64Max then uint64Max else range.offset + range.length
  { start := range.offset.toBitVec.toInt
    len := if range.length = 0 ∨ range.length = uint64Max ∨ last < range.offset ∨ last.toNat > 2 ^ 63 - 1 then 0
      else range.length.toNat }

def Flock.covers (fl : Flock) (byte : Nat) : Bool :=
  fl.start ≤ byte ∧ (fl.len = 0 ∨ (byte : Int) < fl.start + fl.len)

/-- The locks of one open file: `some true` on a byte that is write-locked. -/
abbrev ByteLocks := Nat → Option Bool

/-- `F_OFD_SETLK`: `type` is `none` for `F_UNLCK`. -/
def ByteLocks.set (locks : ByteLocks) (fl : Flock) (type : Option Bool) : ByteLocks := fun byte =>
  if fl.covers byte then type else locks byte

/-! ### The lock manager -/

/-- `LustreLockMgr::Key`. -/
structure LustreKey where
  oid : ObjId
  owner : Bytes
deriving DecidableEq

inductive LustreCall where
  | lock (key : LustreKey) (range : LockRange) (exclusive : Bool)
  | unlock (key : LustreKey) (range : LockRange)
  | release (key : LustreKey)
deriving DecidableEq

/-- Where a call is. The constructors are named after the step that comes next. -/
inductive LustrePc where
  | idle
  | find (call : LustreCall)
  | openOid (key : LustreKey) (range : LockRange) (exclusive : Bool)
  | emplace (key : LustreKey) (range : LockRange) (exclusive : Bool) (fd : Nat)
  | closeLoser (key : LustreKey) (range : LockRange) (exclusive : Bool) (fd winner : Nat)
  | fcntl (key : LustreKey) (range : LockRange) (type : Option Bool) (fd : Nat)
  | unlockAll (key : LustreKey) (fd : Nat)
  | close (key : LustreKey) (fd : Nat)
deriving DecidableEq

/-- An open descriptor: the object and owner it was opened for, and the locks held through it. -/
structure OpenFd where
  key : LustreKey
  locks : ByteLocks

/-- The map, the descriptors of the process and the calls. `granted` and `issued` are nobody's memory: what
was granted to each key and neither unlocked nor released since, and for which key each `fcntl` was issued and what it hit. -/
structure LustreLocks where
  fds : LustreKey → Option Nat := fun _ => none
  opened : Nat → Option OpenFd := fun _ => none
  calls : Nat → LustrePc := fun _ => .idle
  granted : LustreKey → ByteLocks := fun _ _ => none
  issued : List (LustreKey × Option LustreKey) := []

/-- What the kernel makes of a step: the number `open` returns, and whether `fcntl` succeeds. -/
structure LustreInput where
  fd : Option Nat := none
  ok : Bool := false

inductive LustreEvent where
  | start (caller : Nat) (call : LustreCall)
  | step (caller : Nat) (input : LustreInput)

namespace LustreLocks

variable (s : LustreLocks)

def goto (caller : Nat) (pc : LustrePc) : LustreLocks :=
  { s with calls := update s.calls caller pc }

/-- The first section of `fd_for`, and the section of `release`. -/
def find (caller : Nat) : LustreCall → LustreLocks
  | .lock key range exclusive =>
    match s.fds key with
    | some fd => s.goto caller (.fcntl key range (some exclusive) fd)
    | none => s.goto caller (.openOid key range exclusive)
  | .unlock key range =>
    match s.fds key with
    | some fd => s.goto caller (.fcntl key range none fd)
    | none =>
      { s.goto caller .idle with
        granted := update s.granted key ((s.granted key).set (makeFlock range) none) }
  | .release key =>
    match s.fds key with
    | some fd =>
      { s.goto caller (.unlockAll key fd) with
        fds := update s.fds key none
        granted := update s.granted key fun _ => none }
    | none => { s.goto caller .idle with granted := update s.granted key fun _ => none }

/-- The second section of `fd_for`. -/
def emplace (caller : Nat) (key : LustreKey) (range : LockRange) (exclusive : Bool)
    (fd : Nat) : LustreLocks :=
  match s.fds key with
  | none =>
    { s.goto caller (.fcntl key range (some exclusive) fd) with fds := update s.fds key (some fd) }
  | some winner => s.goto caller (.closeLoser key range exclusive fd winner)

/-- `fcntl` on a descriptor number: what it finds there is recorded; the kernel refuses a number that is not open
and a negative start. -/
def setlk (key : LustreKey) (fd : Nat) (fl : Flock) (type : Option Bool) (ok : Bool) :
    LustreLocks × Bool :=
  let s := { s with issued := s.issued ++ [(key, (s.opened fd).map OpenFd.key)] }
  match s.opened fd with
  | none => (s, false)
  | some file =>
    if ok ∧ 0 ≤ fl.start then
      ({ s with opened := update s.opened fd (some ⟨file.key, file.locks.set fl type⟩) }, true)
    else (s, false)

def close (fd : Nat) : LustreLocks :=
  { s with opened := update s.opened fd none }

def advance (caller : Nat) (input : LustreInput) : LustrePc → LustreLocks
  | .idle => s
  | .find call => s.find caller call
  | .openOid key range exclusive =>
    match input.fd with
    | none => s.goto caller .idle
    | some fd =>
      -- A number that is open is not handed out.
      match s.opened fd with
      | some _ => s
      | none =>
        { s.goto caller (.emplace key range exclusive fd) with
          opened := update s.opened fd (some ⟨key, fun _ => none⟩) }
  | .emplace key range exclusive fd => s.emplace caller key range exclusive fd
  | .closeLoser key range exclusive fd winner =>
    (s.goto caller (.fcntl key range (some exclusive) winner)).close fd
  | .fcntl key range type fd =>
    let done := (s.goto caller .idle).setlk key fd (makeFlock range) type input.ok
    if done.2 then
      { done.1 with
        granted := update s.granted key ((s.granted key).set (makeFlock range) type) }
    else done.1
  | .unlockAll key fd =>
    ((s.goto caller (.close key fd)).setlk key fd (makeFlock ⟨0, uint64Max⟩) none input.ok).1
  | .close _ fd => (s.goto caller .idle).close fd

def step (s : LustreLocks) : LustreEvent → LustreLocks
  | .start caller call =>
    match s.calls caller with
    | .idle => s.goto caller (.find call)
    | _ => s
  | .step caller input => s.advance caller input (s.calls caller)

end LustreLocks

def lustreLocks : System LustreLocks LustreEvent := ⟨LustreLocks.step⟩

/-! ### Who may use which descriptor -/

namespace LustrePc

/-- The descriptor only this call knows, with its key. -/
def own : LustrePc → Option (LustreKey × Nat)
  | .emplace key _ _ fd | .closeLoser key _ _ fd _ | .unlockAll key fd | .close key fd => some (key, fd)
  | _ => none

/-- The number copied out of the map. -/
def borrowed : LustrePc → Option (LustreKey × Nat)
  | .closeLoser key _ _ _ fd | .fcntl key _ _ fd => some (key, fd)
  | _ => none

end LustrePc

/-- What a call may rely on. -/
structure LustrePc.Fits (s : LustreLocks) (pc : LustrePc) : Prop where
  own : ∀ key fd, pc.own = some (key, fd) → (∀ k, s.fds k ≠ some fd) ∧ ∃ locks, s.opened fd = some ⟨key, locks⟩
  borrowed : ∀ key fd, pc.borrowed = some (key, fd) → s.fds key = some fd
  fresh : ∀ key range exclusive fd, pc = .emplace key range exclusive fd → s.opened fd = some ⟨key, fun _ => none⟩

/-- The map leads to open descriptors of its keys with exactly the locks that were granted, no two calls own
one descriptor, and every `fcntl` so far hit its own key. -/
structure LustreLocks.Sound (s : LustreLocks) : Prop where
  mapped : ∀ key fd, s.fds key = some fd → s.opened fd = some ⟨key, s.granted key⟩
  unmapped : ∀ key, s.fds key = none → s.granted key = fun _ => none
  fits : ∀ caller, (s.calls caller).Fits s
  apart : ∀ a b key key' fd, (s.calls a).own = some (key, fd) → (s.calls b).own = some (key', fd) → a = b
  issued : ∀ hit ∈ s.issued, hit.2 = some hit.1

/-- A step that takes the descriptor of a key out of the map finds no other call that has copied its number. -/
def LustreLocks.Calm (s : LustreLocks) : LustreEvent → Prop
  | .step caller _ => ∀ key, s.calls caller = .find (.release key) →
      ∀ other fd, (s.calls other).borrowed ≠ some (key, fd)
  | _ => True

namespace LustreLocks.Sound

variable {s : LustreLocks}
variable {caller fd : Nat} {pc : LustrePc}
variable {key : LustreKey}

theorem fits_none (hown : pc.own = none) (hborrowed : pc.borrowed = none) : pc.Fits s := by
  refine ⟨?_, ?_, ?_⟩
  · intro key fd h
    rw [hown] at h
    cases h
  · intro key fd h
    rw [hborrowed] at h
    cases h
  · rintro key range exclusive fd rfl
    cases hown

/-- A place fits a changed state in which its own descriptors and the number it copied are as they were. -/
theorem fits_kept {s' : LustreLocks} (h : pc.Fits s)
    (hown : ∀ key fd, pc.own = some (key, fd) → (∀ k, s'.fds k ≠ some fd) ∧ s'.opened fd = s.opened fd)
    (hborrowed : ∀ key fd, pc.borrowed = some (key, fd) → s'.fds key = some fd) : pc.Fits s' := by
  refine ⟨?_, hborrowed, ?_⟩
  · intro key fd eq
    obtain ⟨hfree, hsame⟩ := hown key fd eq
    exact ⟨hfree, hsame ▸ (h.own key fd eq).2⟩
  · rintro key range exclusive fd rfl
    rw [(hown key fd rfl).2]
    exact h.fresh key range exclusive fd rfl

theorem init : Sound {} where
  mapped := by
    intro key fd h
    cases h
  unmapped _ _ := rfl
  fits _ := fits_none rfl rfl
  apart := by
    intro a b key key' fd h
    cases h
  issued := by
    intro hit h
    cases h

/-- What a step of one call has to show: its own new place fits, the others still fit, and it owns no
descriptor of theirs. -/
theorem moved {s' : LustreLocks} (h : Sound s) (pc : LustrePc)
    (hcalls : s'.calls = update s.calls caller pc)
    (hmapped : ∀ key fd, s'.fds key = some fd → s'.opened fd = some ⟨key, s'.granted key⟩)
    (hunmapped : ∀ key, s'.fds key = none → s'.granted key = fun _ => none)
    (hself : pc.Fits s') (hothers : ∀ other, other ≠ caller → (s.calls other).Fits s')
    (hown : ∀ key fd, pc.own = some (key, fd) → ∀ other, other ≠ caller → ∀ key',
      (s.calls other).own ≠ some (key', fd))
    (hissued : ∀ hit ∈ s'.issued, hit.2 = some hit.1) : Sound s' where
  mapped := hmapped
  unmapped := hunmapped
  fits := by
    intro other
    rw [hcalls]
    by_cases eq : other = caller
    · rw [eq, update_self]
      exact hself
    · rw [update_of_ne eq]
      exact hothers other eq
  apart := by
    intro a b key key' fd ha hb
    rw [hcalls] at ha hb
    by_cases eqa : a = caller <;> by_cases eqb : b = caller
    · rw [eqa, eqb]
    · rw [eqa, update_self] at ha
      rw [update_of_ne eqb] at hb
      exact absurd hb (hown key fd ha b eqb key')
    · rw [update_of_ne eqa] at ha
      rw [eqb, update_self] at hb
      exact absurd ha (hown key' fd hb a eqa key)
    · rw [update_of_ne eqa] at ha
      rw [update_of_ne eqb] at hb
      exact h.apart a b key key' fd ha hb
  issued := hissued

theorem fits_goto {pc' : LustrePc} (h : pc.Fits s) : pc.Fits (s.goto caller pc') :=
  ⟨h.own, h.borrowed, h.fresh⟩

/-- A step that changes nothing but the place of its call. -/
theorem goto (h : Sound s) (caller : Nat) (hown : pc.own = none)
    (hborrowed : ∀ key fd, pc.borrowed = some (key, fd) → s.fds key = some fd) : Sound (s.goto caller pc) := by
  refine h.moved pc rfl h.mapped h.unmapped ⟨?_, hborrowed, ?_⟩ (fun other _ => fits_goto (h.fits other)) ?_ h.issued
  · intro key fd eq
    rw [hown] at eq
    cases eq
  · rintro key range exclusive fd rfl
    cases hown
  · intro key fd eq
    rw [hown] at eq
    cases eq

theorem goto_idle (h : Sound s) (caller : Nat) : Sound (s.goto caller .idle) := by
  refine h.goto caller rfl ?_
  intro key fd eq
  cases eq

theorem set_empty (fl : Flock) : ByteLocks.set (fun _ => none) fl none = fun _ => none := by
  funext byte
  simp [ByteLocks.set]

/-- Locks of a key that has none are not taken away. -/
theorem forget (h : Sound s) (hnone : s.fds key = none) {locks : ByteLocks}
    (hempty : locks = fun _ => none) : Sound { s with granted := update s.granted key locks } := by
  have hsame : update s.granted key locks = s.granted := by
    rw [hempty, ← h.unmapped key hnone, update_eq_self]
  rw [hsame]
  exact h

theorem find (h : Sound s) (caller : Nat) (call : LustreCall)
    (hcalm : ∀ key, call = .release key → ∀ other fd, (s.calls other).borrowed ≠ some (key, fd)) :
    Sound (s.find caller call) := by
  cases call with
  | lock key range exclusive =>
    simp only [LustreLocks.find]
    split
    next fd hfound =>
      refine h.goto caller rfl ?_
      rintro _ _ ⟨⟩
      exact hfound
    · refine h.goto caller rfl ?_
      intro _ _ eq
      cases eq
  | unlock key range =>
    simp only [LustreLocks.find]
    split
    next fd hfound =>
      refine h.goto caller rfl ?_
      rintro _ _ ⟨⟩
      exact hfound
    next hmissing =>
      have hidle := h.goto_idle caller
      exact hidle.forget hmissing (by rw [h.unmapped key hmissing, set_empty])
  | release key =>
    simp only [LustreLocks.find]
    split
    next fd hfound =>
      have hopen := h.mapped key fd hfound
      refine h.moved (.unlockAll key fd) rfl ?_ ?_ ⟨?_, ?_, ?_⟩ ?_ ?_ h.issued
      · intro k n hk
        have ne : k ≠ key := by
          rintro rfl
          simp at hk
        simp only [update_of_ne ne] at hk ⊢
        exact h.mapped k n hk
      · intro k hk
        by_cases eq : k = key
        · simp [eq]
        · simp only [update_of_ne eq] at hk ⊢
          exact h.unmapped k hk
      · rintro _ _ ⟨⟩
        refine ⟨?_, _, hopen⟩
        intro k hk
        have ne : k ≠ key := by
          rintro rfl
          simp at hk
        simp only [update_of_ne ne] at hk
        have other := h.mapped k fd hk
        rw [hopen] at other
        exact ne (congrArg OpenFd.key (Option.some.inj other)).symm
      · intro _ _ eq
        cases eq
      · intro _ _ _ _ eq
        cases eq
      · intro other _
        refine fits_kept (h.fits other) ?_ ?_
        · intro k n eq
          refine ⟨?_, rfl⟩
          intro k' hk'
          by_cases eq' : k' = key
          · simp [eq'] at hk'
          · simp only [update_of_ne eq'] at hk'
            exact ((h.fits other).own k n eq).1 k' hk'
        · intro k n eq
          have ne : k ≠ key := by
            rintro rfl
            exact hcalm k rfl other n eq
          simp only [update_of_ne ne]
          exact (h.fits other).borrowed k n eq
      · rintro _ _ ⟨⟩ other _ key' eq
        exact ((h.fits other).own key' fd eq).1 key hfound
    next hmissing =>
      have hidle := h.goto_idle caller
      exact hidle.forget hmissing rfl

/-- `open` returns a number nobody has. -/
theorem opened (h : Sound s) (caller : Nat) (key : LustreKey) (range : LockRange) (exclusive : Bool)
    (hfree : s.opened fd = none) :
    Sound { s.goto caller (.emplace key range exclusive fd) with
      opened := update s.opened fd (some ⟨key, fun _ => none⟩) } := by
  have hunmapped : ∀ k n, s.fds k = some n → n ≠ fd := by
    rintro k n hk rfl
    rw [h.mapped k n hk] at hfree
    cases hfree
  have hunowned : ∀ other k n, (s.calls other).own = some (k, n) → n ≠ fd := by
    rintro other k n eq rfl
    obtain ⟨-, locks, hopen⟩ := (h.fits other).own k n eq
    rw [hopen] at hfree
    cases hfree
  refine h.moved (.emplace key range exclusive fd) rfl ?_ h.unmapped ⟨?_, ?_, ?_⟩ ?_ ?_ h.issued
  · intro k n hk
    simp only [update_of_ne (hunmapped k n hk)]
    exact h.mapped k n hk
  · rintro _ _ ⟨⟩
    exact ⟨fun k hk => hunmapped k fd hk rfl, _, update_self ..⟩
  · intro _ _ eq
    cases eq
  · rintro _ _ _ _ ⟨⟩
    exact update_self ..
  · intro other _
    refine fits_kept (h.fits other) ?_ (h.fits other).borrowed
    intro k n eq
    exact ⟨((h.fits other).own k n eq).1, update_of_ne (hunowned other k n eq) ..⟩
  · rintro _ _ ⟨⟩ other _ key' eq
    exact hunowned other key' fd eq rfl

theorem emplace (h : Sound s) {range : LockRange} {exclusive : Bool}
    (hpc : s.calls caller = .emplace key range exclusive fd) :
    Sound (s.emplace caller key range exclusive fd) := by
  have hfits := h.fits caller
  rw [hpc] at hfits
  obtain ⟨hfree, -⟩ := hfits.own key fd rfl
  have hopen := hfits.fresh key range exclusive fd rfl
  have hunowned : ∀ other, other ≠ caller → ∀ k, (s.calls other).own ≠ some (k, fd) := by
    intro other ne k eq
    exact ne (h.apart other caller k key fd eq (by rw [hpc]; rfl))
  unfold LustreLocks.emplace
  split
  next hmissing =>
    refine h.moved (.fcntl key range (some exclusive) fd) rfl ?_ ?_ ⟨?_, ?_, ?_⟩ ?_ ?_ h.issued
    · intro k n hk
      by_cases eq : k = key
      · rw [eq] at hk ⊢
        simp only [update_self, Option.some.injEq] at hk
        rw [← hk]
        exact hopen.trans (by rw [← h.unmapped key hmissing]; rfl)
      · simp only [update_of_ne eq] at hk
        exact h.mapped k n hk
    · intro k hk
      have ne : k ≠ key := by
        rintro rfl
        simp at hk
      simp only [update_of_ne ne] at hk
      exact h.unmapped k hk
    · intro _ _ eq
      cases eq
    · rintro _ _ ⟨⟩
      exact update_self ..
    · intro _ _ _ _ eq
      cases eq
    · intro other ne
      refine fits_kept (h.fits other) ?_ ?_
      · intro k n eq
        refine ⟨?_, rfl⟩
        intro k' hk'
        by_cases eq' : k' = key
        · rw [eq'] at hk'
          simp only [update_self, Option.some.injEq] at hk'
          exact hunowned other ne k (hk' ▸ eq)
        · simp only [update_of_ne eq'] at hk'
          exact ((h.fits other).own k n eq).1 k' hk'
      · intro k n eq
        have hfound := (h.fits other).borrowed k n eq
        have ne' : k ≠ key := by
          rintro rfl
          rw [hmissing] at hfound
          cases hfound
        simp only [update_of_ne ne']
        exact hfound
    · intro _ _ eq
      cases eq
  next winner hfound =>
    refine h.moved (.closeLoser key range exclusive fd winner) rfl h.mapped h.unmapped ⟨?_, ?_, ?_⟩
      (fun other _ => fits_goto (h.fits other)) ?_ h.issued
    · rintro _ _ ⟨⟩
      exact ⟨hfree, _, hopen⟩
    · rintro _ _ ⟨⟩
      exact hfound
    · intro _ _ _ _ eq
      cases eq
    · rintro _ _ ⟨⟩ other ne key'
      exact hunowned other ne key'

/-- A call does away with a descriptor only it knows, and goes on without it. -/
theorem closed (h : Sound s) (key : LustreKey)
    (hown : (s.calls caller).own = some (key, fd)) (hnone : pc.own = none)
    (hborrowed : ∀ k n, pc.borrowed = some (k, n) → s.fds k = some n) :
    Sound ((s.goto caller pc).close fd) := by
  obtain ⟨hfree, -⟩ := (h.fits caller).own key fd hown
  refine h.moved pc rfl ?_ h.unmapped ⟨?_, hborrowed, ?_⟩ ?_ ?_ h.issued
  · intro k n hk
    have ne : n ≠ fd := by
      rintro rfl
      exact hfree k hk
    exact (update_of_ne ne ..).trans (h.mapped k n hk)
  · intro _ _ eq
    rw [hnone] at eq
    cases eq
  · rintro _ _ _ _ rfl
    cases hnone
  · intro other ne
    refine fits_kept (h.fits other) ?_ (h.fits other).borrowed
    intro k n eq
    have ne' : n ≠ fd := by
      rintro rfl
      exact ne (h.apart other caller k key n eq hown)
    exact ⟨((h.fits other).own k n eq).1, update_of_ne ne' ..⟩
  · intro _ _ eq
    rw [hnone] at eq
    cases eq

theorem set_issued (h : Sound s) (key : LustreKey) (hown : ∀ hit ∈ s.issued, hit.2 = some hit.1) :
    Sound { s with issued := s.issued ++ [(key, some key)] } := by
  refine ⟨h.mapped, h.unmapped, fun other => ⟨(h.fits other).own, (h.fits other).borrowed, (h.fits other).fresh⟩,
    h.apart, ?_⟩
  intro hit mem
  rcases List.mem_append.1 mem with old | new
  · exact hown hit old
  · rw [List.mem_singleton.1 new]

/-- An `fcntl` through the descriptor in the map changes the locks of its key, and what is recorded of them, alike. -/
theorem relocked (h : Sound s) (hfound : s.fds key = some fd) (locks : ByteLocks) :
    Sound { s with
      opened := update s.opened fd (some ⟨key, locks⟩)
      granted := update s.granted key locks } := by
  have hopen := h.mapped key fd hfound
  refine ⟨?_, ?_, ?_, h.apart, h.issued⟩
  · intro k n hk
    by_cases eq : k = key
    · have hsame : n = fd := Option.some.inj (hk.symm.trans (eq ▸ hfound))
      simp only [hsame, eq, update_self]
    · have ne : n ≠ fd := by
        rintro rfl
        have other := h.mapped k n hk
        rw [hopen] at other
        exact eq (congrArg OpenFd.key (Option.some.inj other)).symm
      simp only [update_of_ne ne, update_of_ne eq]
      exact h.mapped k n hk
  · intro k hk
    have ne : k ≠ key := by
      rintro rfl
      rw [hfound] at hk
      cases hk
    simp only [update_of_ne ne]
    exact h.unmapped k hk
  · intro other
    refine fits_kept (h.fits other) ?_ (h.fits other).borrowed
    intro k n eq
    have hfree := ((h.fits other).own k n eq).1
    have ne : n ≠ fd := by
      rintro rfl
      exact hfree key hfound
    exact ⟨hfree, update_of_ne ne ..⟩

theorem fcntl (h : Sound s) {range : LockRange} {type : Option Bool} (hpc : s.calls caller = .fcntl key range type fd)
    (input : LustreInput) :
    Sound (s.advance caller input (.fcntl key range type fd)) := by
  have hfits := h.fits caller
  rw [hpc] at hfits
  have hfound := hfits.borrowed key fd rfl
  have hopen := h.mapped key fd hfound
  have hidle := h.goto_idle caller
  have hissued := hidle.set_issued key hidle.issued
  have hsame : (s.goto caller .idle).opened fd = some ⟨key, s.granted key⟩ := hopen
  simp only [LustreLocks.advance, LustreLocks.setlk, hsame, Option.map_some]
  by_cases haccepted : input.ok = true ∧ 0 ≤ (makeFlock range).start
  · simp only [if_pos haccepted, if_true]
    exact hissued.relocked hfound _
  · simp only [if_neg haccepted, Bool.false_eq_true, if_false]
    exact hissued

theorem unlockAll (h : Sound s)
    (hpc : s.calls caller = .unlockAll key fd) (input : LustreInput) :
    Sound (s.advance caller input (.unlockAll key fd)) := by
  have hown : (s.calls caller).own = some (key, fd) := by rw [hpc]; rfl
  obtain ⟨hfree, locks, hopen⟩ := (h.fits caller).own key fd hown
  have hunowned : ∀ other, other ≠ caller → ∀ k n, (s.calls other).own = some (k, n) → n ≠ fd := by
    rintro other ne k n eq rfl
    exact ne (h.apart other caller k key n eq hown)
  have hnext : Sound (s.goto caller (.close key fd)) := by
    refine h.moved (.close key fd) rfl h.mapped h.unmapped ⟨?_, ?_, ?_⟩
      (fun other _ => fits_goto (h.fits other)) ?_ h.issued
    · rintro _ _ ⟨⟩
      exact ⟨hfree, locks, hopen⟩
    · intro _ _ eq
      cases eq
    · intro _ _ _ _ eq
      cases eq
    · rintro _ _ ⟨⟩ other ne key' eq
      exact hunowned other ne key' fd eq rfl
  have hissued := hnext.set_issued key hnext.issued
  have hsame : (s.goto caller (.close key fd)).opened fd = some ⟨key, locks⟩ := hopen
  simp only [LustreLocks.advance, LustreLocks.setlk, hsame, Option.map_some]
  split_ifs
  · refine h.moved (.close key fd) rfl ?_ h.unmapped ⟨?_, ?_, ?_⟩ ?_ ?_ hissued.issued
    · intro k n hk
      have ne : n ≠ fd := by
        rintro rfl
        exact hfree k hk
      exact (update_of_ne ne ..).trans (h.mapped k n hk)
    · rintro _ _ ⟨⟩
      exact ⟨hfree, _, update_self ..⟩
    · intro _ _ eq
      cases eq
    · intro _ _ _ _ eq
      cases eq
    · intro other ne
      refine fits_kept (h.fits other) ?_ (h.fits other).borrowed
      intro k n eq
      exact ⟨((h.fits other).own k n eq).1, update_of_ne (hunowned other ne k n eq) ..⟩
    · rintro _ _ ⟨⟩ other ne key' eq
      exact hunowned other ne key' fd eq rfl
  · exact hissued

theorem step (h : Sound s) (e : LustreEvent) (hcalm : s.Calm e) : Sound (s.step e) := by
  cases e with
  | start caller call =>
    simp only [LustreLocks.step]
    split
    · exact h.goto caller rfl (by intro _ _ eq; cases eq)
    · exact h
  | step caller input =>
    simp only [LustreLocks.step]
    cases hpc : s.calls caller with
    | idle => exact h
    | find call =>
      refine h.find caller call ?_
      rintro key rfl
      exact hcalm key hpc
    | openOid key range exclusive =>
      simp only [LustreLocks.advance]
      split
      · exact h.goto caller rfl (by intro _ _ eq; cases eq)
      · split
        · exact h
        next hfree => exact h.opened caller key range exclusive hfree
    | emplace key range exclusive fd => exact h.emplace hpc
    | closeLoser key range exclusive fd winner =>
      have hfits := h.fits caller
      rw [hpc] at hfits
      refine h.closed key (by rw [hpc]; rfl) rfl ?_
      rintro _ _ ⟨⟩
      exact hfits.borrowed key winner rfl
    | fcntl key range type fd => exact h.fcntl hpc input
    | unlockAll key fd => exact h.unlockAll hpc input
    | close key fd =>
      refine h.closed key (by rw [hpc]; rfl) rfl ?_
      intro _ _ eq
      cases eq

end LustreLocks.Sound

/-- In a run in which no release takes a descriptor out of the map that another call of the same object and
owner has copied and not used yet, every `fcntl` is issued on an open descriptor of its own object and owner,
and once all calls have finished, every lock that was granted and neither unlocked nor released is held through the
descriptor recorded for its object and owner. -/
theorem lustre_locks_own_descriptor (events : List LustreEvent)
    (hcalm : lustreLocks.Meets LustreLocks.Calm {} events) :
    let s := lustreLocks.run {} events
    (∀ hit ∈ s.issued, hit.2 = some hit.1) ∧
      ((∀ caller, s.calls caller = .idle) → ∀ key byte exclusive, s.granted key byte = some exclusive →
        ∃ fd file, s.fds key = some fd ∧ s.opened fd = some file ∧ file.key = key ∧
          file.locks byte = some exclusive) := by
  intro s
  have hsound : s.Sound := System.run_keeps (fun _ e h hcalm => h.step e hcalm) LustreLocks.Sound.init hcalm
  refine ⟨hsound.issued, fun _ key byte exclusive hheld => ?_⟩
  cases hfound : s.fds key with
  | none =>
    rw [hsound.unmapped key hfound] at hheld
    cases hheld
  | some fd => exact ⟨fd, _, rfl, hsound.mapped key fd hfound, rfl, hheld⟩

/-- Two objects, each with an owner. -/
def lustreKey (n : UInt8) : LustreKey := ⟨⟨[n], Nat.le_of_ble_eq_true rfl⟩, [n]⟩

/-- A lock on an object opens descriptor 5, and a second one copies the number out of the map; a release begins. -/
def descriptorCopied : List LustreEvent :=
  [.start 0 (.lock (lustreKey 1) ⟨0, 10⟩ true), .step 0 {}, .step 0 { fd := some 5 }, .step 0 {}, .step 0 { ok := true },
    .start 0 (.lock (lustreKey 1) ⟨20, 10⟩ true), .step 0 {}, .start 1 (.release (lustreKey 1))]

/-- The release closes 5, and a lock on the other object opens it again. -/
def descriptorClosed : List LustreEvent :=
  [.step 1 {}, .step 1 { ok := true }, .step 1 {},
    .start 2 (.lock (lustreKey 2) ⟨0, 10⟩ true), .step 2 {}, .step 2 { fd := some 5 }, .step 2 {}, .step 2 { ok := true }]

/-- The second lock issues its `fcntl` before the release: each of the four calls hits its own descriptor, the number is
used again, and the lock on the other object is held through it. -/
theorem lustre_locks_own_descriptor_reused :
    let s := lustreLocks.run {} (descriptorCopied ++ .step 0 { ok := true } :: descriptorClosed)
    s.issued.map Prod.fst = [lustreKey 1, lustreKey 1, lustreKey 1, lustreKey 2] ∧
      (∀ hit ∈ s.issued, hit.2 = some hit.1) ∧
      ∃ fd file, s.fds (lustreKey 2) = some fd ∧ s.opened fd = some file ∧ file.key = lustreKey 2 ∧
        file.locks 9 = some true := by
  have hcalm : lustreLocks.Meets LustreLocks.Calm {} (descriptorCopied ++ .step 0 { ok := true } :: descriptorClosed) := by
    refine ⟨trivial, ?_, ?_, ?_, ?_, trivial, ?_, trivial, ?_, ?_, ?_, ?_, trivial, ?_, ?_, ?_, ?_, trivial⟩
    all_goals
      intro key h
      cases h
    -- The release: the calls that copied the number are through.
    rintro (_ | _ | other) fd h <;> cases h
  obtain ⟨hown, hheld⟩ := lustre_locks_own_descriptor _ hcalm
  refine ⟨by decide +kernel, hown, hheld ?_ (lustreKey 2) 9 true (by decide +kernel)⟩
  rintro (_ | _ | _ | caller) <;> rfl

/-- It issues its `fcntl` after the release instead: the lock is granted on the descriptor of the other object, and no
descriptor is recorded for its own. -/
theorem lustre_lock_hits_other :
    let s := lustreLocks.run {} (descriptorCopied ++ descriptorClosed ++ [.step 0 { ok := true }])
    (∀ caller, s.calls caller = .idle) ∧ (lustreKey 1, some (lustreKey 2)) ∈ s.issued ∧
      s.granted (lustreKey 1) 20 = some true ∧ s.fds (lustreKey 1) = none ∧
      ((s.opened 5).map OpenFd.key) = some (lustreKey 2) := by
  refine ⟨?_, by decide +kernel⟩
  rintro (_ | _ | _ | caller) <;> rfl

end LightNfs
