import Mathlib
import LightNfs.Nfs3.Dispatch

/-!
# "Try later" and the duplicate request cache

The nine procedures of `drc_cached` as far as the status of their replies goes, with the delegations of
the state manager beside the cache. A delegation is recalled by answering JUKEBOX, and the cache keeps
whatever was answered.
-/

namespace LightNfs

def Status3.code : Status3 → UInt32
  | .ok => 0 | .perm => 1 | .noent => 2 | .io => 5 | .nxio => 6 | .acces => 13 | .exist => 17 | .xdev => 18
  | .nodev => 19 | .notdir => 20 | .isdir => 21 | .inval => 22 | .fbig => 27 | .nospc => 28 | .rofs => 30
  | .mlink => 31 | .nametoolong => 63 | .notempty => 66 | .dquot => 69 | .stale => 70 | .remote => 71
  | .badhandle => 10001 | .notSync => 10002 | .badCookie => 10003 | .notsupp => 10004 | .toosmall => 10005
  | .serverfault => 10006 | .badtype => 10007 | .jukebox => 10008

variable {cfg : DrcConfig}

theorem Status3.code_eq_jukebox (s : Status3) : s.code = 10008 ↔ s = .jukebox := by
  cases s <;> decide

/-! ### The handlers -/

/-- `NameCheck` and what `MutateGuard::precheck` says of a request's names. -/
inductive NameCheck where
  | ok | empty | tooLong | badChar | dot
deriving DecidableEq

inductive Verdict where
  | ok
  | readonly
  | badName (check : NameCheck) (index : Nat)
deriving DecidableEq

/-- What the state manager says of delegations; without one there are none. -/
structure Delegations where
  state : Bool := true
  files : List FileKey := []
deriving DecidableEq

variable (d : Delegations)

/-- `any_delegations` of a state manager that is there. -/
def Delegations.any : Bool := d.state && !d.files.isEmpty

/-- `deleg_recall_needed`. -/
def Delegations.recallNeeded (key : FileKey) : Bool := d.any && decide (key ∈ d.files)

/-- What a handler meets on its way: how its handles resolve, what the checks say, which file the name it
removes, replaces or truncates belongs to, and what the backend makes of the calls. -/
structure Met where
  decodes : Bool := true
  resolve : Except Errno FileKey
  resolveTo : Except Errno FileKey
  sameExport : Bool := true
  verdict : Verdict := .ok
  name : Bytes := []
  longTarget : Bool := false
  special : Bool := true
  capable : Bool := true
  guardFails : Bool := false
  exclusive : Bool := false
  unchecked : Bool := false
  size : Bool := false
  lookup : Option FileKey := none
  truncated : Except Errno Unit := .ok ()
  change : Except Errno Unit := .ok ()
  /-- The reply behind the status. -/
  rest : Bytes := []
deriving DecidableEq

variable (m : Met) (proc : Proc)

def verdictStatus : Verdict → Status3
  | .ok => .ok
  | .readonly => .rofs
  | .badName check _ => if check = .tooLong then .nametoolong else .acces

def changed : Except Errno Unit → Status3
  | .ok () => .ok
  | .error e => toV3 e proc

/-- A handler behind `resolve` of its one handle. -/
def resolved (m : Met) (body : FileKey → Status3) : Status3 :=
  match m.resolve with
  | .error e => toV3 e proc
  | .ok key => body key

/-- A handler with two handles, which have to be in one export. -/
def resolvedBoth (m : Met) (body : Status3) : Status3 :=
  resolved proc m fun _ =>
    match m.resolveTo with
    | .error e => toV3 e proc
    | .ok _ => if m.sameExport then body else .xdev

def checked (precheck : Status3) (body : Status3) : Status3 := if precheck ≠ .ok then precheck else body

/-- The first check that fails. -/
def andThen (precheck : Status3) (fails : Bool) (status : Status3) : Status3 :=
  if precheck = .ok ∧ fails then status else precheck

/-- A file that has to be given back first. -/
def recallFirst (d : Delegations) (victim : Option FileKey) (body : Status3) : Status3 :=
  if d.any ∧ victim.any d.recallNeeded then .jukebox else body

def procSetattr (m : Met) : Status3 :=
  resolved .setattr m fun key => checked (verdictStatus m.verdict) <|
    if m.guardFails then .notSync
    else if d.recallNeeded key then .jukebox
    else changed .setattr m.change

def procCreate (m : Met) : Status3 :=
  resolved .create m fun _ => checked (verdictStatus m.verdict) <|
    match m.change with
    | .ok () => .ok
    | .error e =>
      if e = .exist ∧ !m.exclusive ∧ m.unchecked then
        match m.lookup with
        | none => toV3 e .create
        | some existing =>
          if m.size && d.recallNeeded existing then .jukebox
          else if m.size then changed .create m.truncated
          else .ok
      else toV3 e .create

def procMkdir : Status3 :=
  resolved .mkdir m fun _ => checked (verdictStatus m.verdict) (changed .mkdir m.change)

def procSymlink : Status3 :=
  resolved .symlink m fun _ =>
    checked (andThen (andThen (verdictStatus m.verdict) m.longTarget .nametoolong) (!m.capable) .notsupp)
      (changed .symlink m.change)

def procMknod : Status3 :=
  resolved .mknod m fun _ =>
    checked (andThen (andThen (verdictStatus m.verdict) (!m.special) .badtype) (!m.capable) .notsupp)
      (changed .mknod m.change)

def procRemove (m : Met) : Status3 :=
  resolved .remove m fun _ => checked (verdictStatus m.verdict) <|
    recallFirst d m.lookup (changed .remove m.change)

def procRmdir : Status3 :=
  resolved .rmdir m fun _ => checked
    (match m.verdict with
    | .badName .dot _ => if m.name = [46] then .inval else .exist
    | verdict => verdictStatus verdict) (changed .rmdir m.change)

def procRename (m : Met) : Status3 :=
  resolvedBoth .rename m <| checked (verdictStatus m.verdict) <|
    recallFirst d m.lookup (changed .rename m.change)

def procLink : Status3 :=
  resolvedBoth .link m <| checked (andThen (verdictStatus m.verdict) (!m.capable) .notsupp)
    (changed .link m.change)

def Proc.status (d : Delegations) (m : Met) : Proc → Status3
  | .setattr => procSetattr d m
  | .create => procCreate d m
  | .mkdir => procMkdir m
  | .symlink => procSymlink m
  | .mknod => procMknod m
  | .remove => procRemove d m
  | .rmdir => procRmdir m
  | .rename => procRename d m
  | .link => procLink m
  | _ => .ok

/-- `begin_result`: the header of an accepted call and the status. -/
def beginResult (xid : UInt32) (status : Status3) : Bytes :=
  ([xid, 1, 0, 0, 0, 0, status.code] : List UInt32).flatMap Xdr.putU32

/-- What `dispatch_proc` leaves in the capture; arguments that do not decode are answered past it. -/
def V3Call.capture (c : V3Call) (d : Delegations) (m : Met) : Bytes :=
  match Proc.ofCode c.call.proc with
  | none => []
  | some proc => if m.decodes then beginResult c.call.xid (proc.status d m) ++ m.rest else []

def replyStatus (reply : Bytes) : UInt32 := RecordStream.be32 ((reply.drop 24).take 4)

/-! ### The server -/

structure V3Server where
  front : V3Front := {}
  delegations : Delegations := {}

/-- A call or the cache moves on, a handler answers, and delegations come and go. -/
inductive V3Step where
  | arrive (caller : Nat) (call : V3Call)
  | resume (caller : Nat)
  | answer (caller : Nat) (met : Met)
  | fail (caller : Nat)
  | pass (time : Nat)
  | delegate (delegations : Delegations)

namespace V3Server

def event (s : V3Server) : V3Step → Option V3Event
  | .arrive caller call => some (.arrive caller call)
  | .resume caller => some (.resume caller)
  | .answer caller met =>
    (s.front.serving caller).map fun call => .reply caller (call.capture s.delegations met)
  | .fail caller => some (.fail caller)
  | .pass time => some (.pass time)
  | .delegate _ => none

def step (cfg : DrcConfig) (s : V3Server) (e : V3Step) : V3Server :=
  { front := (s.event e).elim s.front (s.front.step cfg)
    delegations := match e with
      | .delegate delegations => delegations
      | _ => s.delegations }

end V3Server

def v3Server (cfg : DrcConfig) : System V3Server V3Step := ⟨V3Server.step cfg⟩

/-! ### When a handler says "try later" -/

theorem verdictStatus_ne_jukebox (v : Verdict) : verdictStatus v ≠ .jukebox := by
  cases v with
  | ok => decide
  | readonly => decide
  | badName check _ => simp only [verdictStatus]; split <;> simp

theorem toV3_eq_jukebox (e : Errno) (proc : Proc) :
    toV3 e proc = .jukebox ↔ e = .jukebox ∧ v3ErrorAllowed proc .jukebox = true := by
  unfold toV3
  by_cases jukebox : e = .jukebox
  · rw [jukebox]
    by_cases allowed : v3ErrorAllowed proc .jukebox = true
    · simp [rawMapping, allowed]
    · simp [rawMapping, allowed]
  · have hraw : rawMapping e ≠ .jukebox := by
      cases e <;> simp_all [rawMapping]
    simp only [jukebox, false_and, iff_false]
    split
    · exact hraw
    · decide

theorem changed_eq_jukebox (r : Except Errno Unit) :
    changed proc r = .jukebox ↔ r = .error .jukebox ∧ v3ErrorAllowed proc .jukebox = true := by
  cases r with
  | ok => simp [changed]
  | error e => simp [changed, toV3_eq_jukebox]

theorem checked_eq_jukebox {precheck body : Status3} (h : precheck ≠ .jukebox) :
    checked precheck body = .jukebox ↔ precheck = .ok ∧ body = .jukebox := by
  unfold checked
  by_cases ok : precheck = .ok
  · simp [ok]
  · simp [ok, h]

theorem resolved_eq_jukebox (m : Met) (body : FileKey → Status3) :
    resolved proc m body = .jukebox ↔
      m.resolve = .error .jukebox ∧ v3ErrorAllowed proc .jukebox = true ∨
        ∃ key, m.resolve = .ok key ∧ body key = .jukebox := by
  unfold resolved
  cases m.resolve with
  | ok key => simp
  | error e => simp [toV3_eq_jukebox]

theorem resolvedBoth_eq_jukebox (m : Met) (body : Status3) :
    resolvedBoth proc m body = .jukebox ↔
      (m.resolve = .error .jukebox ∧ v3ErrorAllowed proc .jukebox = true) ∨ ∃ key, m.resolve = .ok key ∧
        (m.resolveTo = .error .jukebox ∧ v3ErrorAllowed proc .jukebox = true ∨
          ∃ dst, m.resolveTo = .ok dst ∧ m.sameExport = true ∧ body = .jukebox) := by
  rw [resolvedBoth, resolved_eq_jukebox]
  cases m.resolveTo with
  | ok dst =>
    by_cases same : m.sameExport = true <;> simp [same]
  | error e => simp [toV3_eq_jukebox]

theorem verdictStatus_eq_ok (v : Verdict) : verdictStatus v = .ok ↔ v = .ok := by
  cases v with
  | ok => simp [verdictStatus]
  | readonly => simp [verdictStatus]
  | badName check _ => simp only [verdictStatus, reduceCtorEq, iff_false]; split <;> simp

/-- A procedure that gets as far as its change finds a file it has to have back first, or the backend
asks for patience itself. -/
inductive TryLater (d : Delegations) (m : Met) : Proc → Prop
  | handle {proc : Proc} (hmapped : proc = .setattr ∨ proc = .create ∨ proc = .remove ∨ proc = .rename)
      (hresolve : m.resolve = .error .jukebox) : TryLater d m proc
  | handleTo {key : FileKey} (hresolve : m.resolve = .ok key) (hresolveTo : m.resolveTo = .error .jukebox) :
      TryLater d m .rename
  | setattr {key : FileKey} (hresolve : m.resolve = .ok key) (hverdict : m.verdict = .ok)
      (hinStep : m.guardFails = false)
      (hbusy : d.recallNeeded key = true ∨ m.change = .error .jukebox) : TryLater d m .setattr
  | create {key : FileKey} (hresolve : m.resolve = .ok key) (hverdict : m.verdict = .ok)
      (hbusy : m.change = .error .jukebox) : TryLater d m .create
  | truncate {key existing : FileKey} (hresolve : m.resolve = .ok key) (hverdict : m.verdict = .ok)
      (hexists : m.change = .error .exist) (hmode : m.exclusive = false ∧ m.unchecked = true)
      (hlookup : m.lookup = some existing) (hsize : m.size = true)
      (hbusy : d.recallNeeded existing = true ∨ m.truncated = .error .jukebox) : TryLater d m .create
  | remove {key : FileKey} (hresolve : m.resolve = .ok key) (hverdict : m.verdict = .ok)
      (hbusy : m.lookup.any d.recallNeeded = true ∨ m.change = .error .jukebox) : TryLater d m .remove
  | rename {key dst : FileKey} (hresolve : m.resolve = .ok key) (hresolveTo : m.resolveTo = .ok dst)
      (hsame : m.sameExport = true) (hverdict : m.verdict = .ok)
      (hbusy : m.lookup.any d.recallNeeded = true ∨ m.change = .error .jukebox) : TryLater d m .rename

theorem recallFirst_eq_jukebox (victim : Option FileKey) (body : Status3) :
    recallFirst d victim body = .jukebox ↔ victim.any d.recallNeeded = true ∨ body = .jukebox := by
  unfold recallFirst
  have hany : victim.any d.recallNeeded = true → d.any = true := by
    cases victim with
    | none => simp
    | some key =>
      intro h
      exact (Bool.and_eq_true_iff.1 h).1
  by_cases held : victim.any d.recallNeeded = true
  · simp [held, hany held]
  · simp [held]

theorem procSetattr_eq_jukebox :
    procSetattr d m = .jukebox ↔ TryLater d m .setattr := by
  have hallowed : v3ErrorAllowed .setattr .jukebox = true := by decide
  simp only [procSetattr, resolved_eq_jukebox, checked_eq_jukebox (verdictStatus_ne_jukebox _),
    verdictStatus_eq_ok, hallowed, and_true]
  constructor
  · rintro (h | ⟨key, resolve, verdict, h⟩)
    · exact .handle (.inl rfl) h
    · split_ifs at h with guard held
      · exact .setattr resolve verdict (Bool.not_eq_true _ ▸ guard) (.inl held)
      · exact .setattr resolve verdict (Bool.not_eq_true _ ▸ guard) (.inr ((changed_eq_jukebox _ _).1 h).1)
  · intro h
    cases h with
    | handle _ resolve => exact .inl resolve
    | setattr resolve verdict inStep busy =>
      refine .inr ⟨_, resolve, verdict, ?_⟩
      rw [inStep, if_neg Bool.false_ne_true]
      split_ifs with held
      · rfl
      · exact (changed_eq_jukebox _ _).2 ⟨busy.resolve_left held, hallowed⟩

theorem procCreate_eq_jukebox :
    procCreate d m = .jukebox ↔ TryLater d m .create := by
  have hallowed : v3ErrorAllowed .create .jukebox = true := by decide
  simp only [procCreate, resolved_eq_jukebox, checked_eq_jukebox (verdictStatus_ne_jukebox _),
    verdictStatus_eq_ok, hallowed, and_true]
  constructor
  · rintro (h | ⟨key, resolve, verdict, h⟩)
    · exact .handle (.inr (.inl rfl)) h
    · cases change : m.change with
      | ok => rw [change] at h; cases h
      | error e =>
        rw [change] at h
        dsimp only at h
        by_cases hmode : e = .exist ∧ (!m.exclusive) = true ∧ m.unchecked = true
        · rw [if_pos hmode] at h
          obtain ⟨rfl, exclusive, unchecked⟩ := hmode
          cases lookup : m.lookup with
          | none => rw [lookup] at h; cases ((toV3_eq_jukebox _ _).1 h).1
          | some existing =>
            rw [lookup] at h
            dsimp only at h
            have hmode : m.exclusive = false ∧ m.unchecked = true := ⟨by simpa using exclusive, unchecked⟩
            split_ifs at h with held size
            · rw [Bool.and_eq_true] at held
              exact .truncate resolve verdict change hmode lookup held.1 (.inl held.2)
            · exact .truncate resolve verdict change hmode lookup size
                (.inr ((changed_eq_jukebox _ _).1 h).1)
        · rw [if_neg hmode] at h
          rw [((toV3_eq_jukebox _ _).1 h).1] at change
          exact .create resolve verdict change
  · intro h
    cases h with
    | handle _ resolve => exact .inl resolve
    | create resolve verdict busy =>
      refine .inr ⟨_, resolve, verdict, ?_⟩
      rw [busy]
      exact (toV3_eq_jukebox _ _).2 ⟨rfl, hallowed⟩
    | truncate resolve verdict exists_ hmode lookup size busy =>
      refine .inr ⟨_, resolve, verdict, ?_⟩
      rw [exists_, lookup, size, hmode.1, hmode.2]
      simp only [Bool.not_false, and_self, if_true, Bool.true_and]
      split_ifs with held
      · rfl
      · exact (changed_eq_jukebox _ _).2 ⟨busy.resolve_left held, hallowed⟩

theorem procRemove_eq_jukebox :
    procRemove d m = .jukebox ↔ TryLater d m .remove := by
  have hallowed : v3ErrorAllowed .remove .jukebox = true := by decide
  simp only [procRemove, resolved_eq_jukebox, checked_eq_jukebox (verdictStatus_ne_jukebox _),
    verdictStatus_eq_ok, recallFirst_eq_jukebox, changed_eq_jukebox, hallowed, and_true]
  constructor
  · rintro (h | ⟨key, resolve, verdict, busy⟩)
    · exact .handle (.inr (.inr (.inl rfl))) h
    · exact .remove resolve verdict busy
  · intro h
    cases h with
    | handle _ resolve => exact .inl resolve
    | remove resolve verdict busy => exact .inr ⟨_, resolve, verdict, busy⟩

theorem procRename_eq_jukebox :
    procRename d m = .jukebox ↔ TryLater d m .rename := by
  have hallowed : v3ErrorAllowed .rename .jukebox = true := by decide
  simp only [procRename, resolvedBoth_eq_jukebox, checked_eq_jukebox (verdictStatus_ne_jukebox _),
    verdictStatus_eq_ok, recallFirst_eq_jukebox, changed_eq_jukebox, hallowed, and_true]
  constructor
  · rintro (h | ⟨key, resolve, h | ⟨dst, resolveTo, same, verdict, busy⟩⟩)
    · exact .handle (.inr (.inr (.inr rfl))) h
    · exact .handleTo resolve h
    · exact .rename resolve resolveTo same verdict busy
  · intro h
    cases h with
    | handle _ resolve => exact .inl resolve
    | handleTo resolve resolveTo => exact .inr ⟨_, resolve, .inl resolveTo⟩
    | rename resolve resolveTo same verdict busy =>
      exact .inr ⟨_, resolve, .inr ⟨_, resolveTo, same, verdict, busy⟩⟩

theorem andThen_ne_jukebox {precheck status : Status3} (fails : Bool) (h : precheck ≠ .jukebox)
    (h' : status ≠ .jukebox) : andThen precheck fails status ≠ .jukebox := by
  unfold andThen
  split
  · exact h'
  · exact h

/-- The procedures without a gate, whose lists of errors have no JUKEBOX, never answer it. -/
theorem ungated_ne_jukebox {proc : Proc}
    (hungated : proc = .mkdir ∨ proc = .symlink ∨ proc = .mknod ∨ proc = .rmdir ∨ proc = .link) :
    proc.status d m ≠ .jukebox := by
  have hverdict := verdictStatus_ne_jukebox m.verdict
  have hnotsupp : Status3.notsupp ≠ .jukebox := by decide
  have hrefused : v3ErrorAllowed proc .jukebox = false := by
    rcases hungated with rfl | rfl | rfl | rfl | rfl <;> decide
  rcases hungated with rfl | rfl | rfl | rfl | rfl
  · simp [Proc.status, procMkdir, resolved_eq_jukebox, checked_eq_jukebox hverdict, changed_eq_jukebox, hrefused]
  · have hlength : Status3.nametoolong ≠ .jukebox := by decide
    have hchecks := andThen_ne_jukebox (!m.capable) (andThen_ne_jukebox m.longTarget hverdict hlength) hnotsupp
    simp [Proc.status, procSymlink, resolved_eq_jukebox, checked_eq_jukebox hchecks, changed_eq_jukebox, hrefused]
  · have hbadtype : Status3.badtype ≠ .jukebox := by decide
    have hchecks := andThen_ne_jukebox (!m.capable) (andThen_ne_jukebox (!m.special) hverdict hbadtype) hnotsupp
    simp [Proc.status, procMknod, resolved_eq_jukebox, checked_eq_jukebox hchecks, changed_eq_jukebox, hrefused]
  · have hchecks : (match m.verdict with
        | .badName .dot _ => if m.name = [46] then Status3.inval else .exist
        | hverdict => verdictStatus hverdict) ≠ .jukebox := by
      split
      · split <;> decide
      · exact verdictStatus_ne_jukebox _
    rw [Proc.status, procRmdir, ne_eq, resolved_eq_jukebox]
    simp [checked_eq_jukebox hchecks, changed_eq_jukebox, hrefused]
  · have hchecks := andThen_ne_jukebox (!m.capable) hverdict hnotsupp
    simp [Proc.status, procLink, resolvedBoth_eq_jukebox, checked_eq_jukebox hchecks, changed_eq_jukebox, hrefused]

theorem TryLater.gated {d : Delegations} {m : Met} {proc : Proc} (h : TryLater d m proc) :
    proc = .setattr ∨ proc = .create ∨ proc = .remove ∨ proc = .rename := by
  cases h <;> simp_all

theorem status_eq_jukebox :
    proc.status d m = .jukebox ↔ TryLater d m proc := by
  by_cases gated : proc = .setattr ∨ proc = .create ∨ proc = .remove ∨ proc = .rename
  · rcases gated with rfl | rfl | rfl | rfl
    · exact procSetattr_eq_jukebox d m
    · exact procCreate_eq_jukebox d m
    · exact procRemove_eq_jukebox d m
    · exact procRename_eq_jukebox d m
  · refine iff_of_false ?_ fun h => gated h.gated
    by_cases ungated : proc = .mkdir ∨ proc = .symlink ∨ proc = .mknod ∨ proc = .rmdir ∨ proc = .link
    · exact ungated_ne_jukebox d m ungated
    · have hplain : proc.status d m = .ok := by
        cases proc <;> simp_all [Proc.status]
      rw [hplain]
      decide

/-! ### What the cache stores -/

theorem replyStatus_beginResult (xid : UInt32) (status : Status3) (rest : Bytes) :
    replyStatus (beginResult xid status ++ rest) = status.code := by
  have hbytes : (beginResult xid status ++ rest).drop 24 = Xdr.putU32 status.code ++ rest := by
    simp [beginResult, Xdr.putU32]
  have hfour : (Xdr.putU32 status.code).length = 4 := rfl
  rw [replyStatus, hbytes, List.take_left' hfour, Xdr.be32_putU32]

/-- A reply that was captured has JUKEBOX for its status exactly when the handler said "try later". -/
theorem capture_jukebox {c : V3Call} {d : Delegations} {m : Met} {proc : Proc}
    (hcode : Proc.ofCode c.call.proc = some proc) (hstored : c.capture d m ≠ []) :
    replyStatus (c.capture d m) = 10008 ↔ TryLater d m proc := by
  unfold V3Call.capture at hstored ⊢
  rw [hcode] at hstored ⊢
  dsimp only at hstored ⊢
  split at hstored
  · rw [if_pos ‹_›, replyStatus_beginResult, Status3.code_eq_jukebox, status_eq_jukebox]
  · exact absurd rfl hstored

theorem completed_of_step {s : Drc} {e : DrcEvent} {c : Nat} {key : DrcKey}
    {reply : Bytes} {now : Nat} (h : DrcObs.completed c key reply now ∈ (s.step cfg e).history) :
    DrcObs.completed c key reply now ∈ s.history ∨ e = .complete c reply := by
  have hdropped : ∀ keys, DrcObs.completed c key reply now ∉ Drc.dropObs s.now keys := by
    simp [Drc.dropObs]
  have hturned : ∀ caller key', DrcObs.completed c key reply now ∈ (s.turn cfg caller key').history →
      DrcObs.completed c key reply now ∈ s.history := by
    intro caller key' h
    simpa [Drc.turn, hdropped] using h
  cases e with
  | begin caller key' =>
    simp only [Drc.step] at h
    split at h
    · exact .inl (hturned _ _ h)
    · exact .inl h
  | resume caller =>
    simp only [Drc.step] at h
    split at h
    · exact .inl (hturned _ _ h)
    · exact .inl h
  | complete caller reply' =>
    simp only [Drc.step] at h
    split at h
    · split at h
      · exact .inl h
      · simp only [List.mem_append, List.mem_singleton, hdropped, or_false, DrcObs.completed.injEq] at h
        rcases h with h | ⟨rfl, -, rfl, -⟩
        · exact .inl h
        · exact .inr rfl
    · exact .inl h
  | abort caller =>
    simp only [Drc.step] at h
    split at h
    · simp only [List.mem_append, List.mem_singleton, reduceCtorEq, or_false] at h
      exact .inl h
    · exact .inl h
  | pass time => exact .inl h

theorem stored_of_front_step {s : V3Front} {e : V3Event} {c : Nat} {key : DrcKey}
    {reply : Bytes} {now : Nat} (h : DrcObs.completed c key reply now ∈ (s.step cfg e).drc.history) :
    DrcObs.completed c key reply now ∈ s.drc.history ∨ e = .reply c reply ∧ reply ≠ [] := by
  have hclaimed : ∀ drc caller call, (s.claimed drc caller call).drc = drc := by
    intro drc caller call
    unfold V3Front.claimed
    split <;> rfl
  cases e with
  | arrive caller call =>
    simp only [V3Front.step] at h
    split at h
    · exact .inl h
    · split at h
      · rw [hclaimed] at h
        exact .inl ((completed_of_step h).resolve_right DrcEvent.noConfusion)
      · exact .inl h
  | resume caller =>
    simp only [V3Front.step] at h
    split at h
    · rw [hclaimed] at h
      exact .inl ((completed_of_step h).resolve_right DrcEvent.noConfusion)
    · exact .inl h
  | reply caller capture =>
    simp only [V3Front.step] at h
    split at h
    · split at h
      · exact .inl ((completed_of_step h).resolve_right DrcEvent.noConfusion)
      next nonempty =>
        rcases completed_of_step h with old | new
        · exact .inl old
        · cases new
          exact .inr ⟨rfl, nonempty⟩
    · exact .inl h
  | fail caller =>
    simp only [V3Front.step] at h
    split at h
    · exact .inl ((completed_of_step h).resolve_right DrcEvent.noConfusion)
    · exact .inl h
  | pass time => exact .inl ((completed_of_step h).resolve_right DrcEvent.noConfusion)

theorem V3Server.sound_step {s : V3Server} (e : V3Step)
    (h : V3Front.Sound cfg (fun _ => True) s.front) : V3Front.Sound cfg (fun _ => True) (s.step cfg e).front := by
  cases event : s.event e with
  | none => simpa [V3Server.step, event] using h
  | some ev => simpa [V3Server.step, event] using h.step ev fun _ _ _ => trivial

namespace V3Server

/-- The step is no handler that says "try later". -/
def Ready (s : V3Server) : V3Step → Prop
  | .answer caller met => ∀ call proc, s.front.serving caller = some call →
      Proc.ofCode call.call.proc = some proc → met.decodes = true → ¬TryLater s.delegations met proc
  | _ => True

/-- The cache has stored no JUKEBOX, and its history is one of the cache. -/
structure Patient (cfg : DrcConfig) (s : V3Server) : Prop where
  sound : V3Front.Sound cfg (fun _ => True) s.front
  stored : ∀ c key reply now, DrcObs.completed c key reply now ∈ s.front.drc.history →
    replyStatus reply ≠ 10008

variable {cfg : DrcConfig} {s : V3Server}

theorem Patient.step (e : V3Step) (h : Patient cfg s) (hready : s.Ready e) :
    Patient cfg (s.step cfg e) := by
  cases event : s.event e with
  | none =>
    have hfront : (s.step cfg e).front = s.front := by simp [V3Server.step, event]
    exact ⟨V3Server.sound_step e h.sound, hfront.symm ▸ h.stored⟩
  | some ev =>
    have hfront : (s.step cfg e).front = s.front.step cfg ev := by simp [V3Server.step, event]
    refine ⟨V3Server.sound_step e h.sound, ?_⟩
    rw [hfront]
    intro c key reply now mem
    rcases stored_of_front_step mem with old | ⟨rfl, nonempty⟩
    · exact h.stored c key reply now old
    · -- The reply is the capture of the call the caller serves.
      cases e with
      | answer caller met =>
        obtain ⟨call, serving, eq⟩ := Option.map_eq_some_iff.1 event
        cases eq
        cases code : Proc.ofCode call.call.proc with
        | none => exact absurd (by rw [V3Call.capture, code]) nonempty
        | some proc =>
          have hdecodes : met.decodes = true := by
            by_contra garbage
            refine nonempty ?_
            rw [V3Call.capture, code]
            exact if_neg garbage
          rw [ne_eq, capture_jukebox code nonempty]
          exact hready call proc serving code hdecodes
      | arrive | resume | fail | pass | delegate => cases event

theorem Patient.init (cfg : DrcConfig) : Patient cfg {} :=
  ⟨V3Front.Sound.init cfg _, fun _ _ _ _ mem => absurd mem List.not_mem_nil⟩

theorem completed_of_kept {h : List DrcObs} {x : DrcKept} (hmem : x ∈ DrcObs.kept h) :
    ∃ c, DrcObs.completed c x.key x.reply x.doneAt ∈ h := by
  induction h using List.reverseRecOn with
  | nil => cases hmem
  | append_singleton h o ih =>
    rw [DrcObs.kept_concat] at hmem
    have hold : x ∈ DrcObs.kept h → ∃ c, DrcObs.completed c x.key x.reply x.doneAt ∈ h ++ [o] := by
      intro kept
      obtain ⟨c, hc⟩ := ih kept
      exact ⟨c, List.mem_append_left _ hc⟩
    cases o with
    | began _ _ _ => exact hold hmem
    | aborted _ _ => exact hold hmem
    | dropped _ _ => exact hold (List.mem_of_mem_filter hmem)
    | completed c key reply now =>
      rcases List.mem_append.1 hmem with kept | new
      · exact hold kept
      · rw [List.mem_singleton.1 new]
        exact ⟨c, List.mem_append_right _ List.mem_cons_self⟩

/-- Nothing is replayed that was not stored. -/
theorem Patient.replayed (h : Patient cfg s) {c : Nat} {key : DrcKey}
    {reply : Bytes} (hmem : DrcObs.began c key (.cached reply) ∈ s.front.drc.history) :
    replyStatus reply ≠ 10008 := by
  obtain ⟨before, after, eq⟩ := List.append_of_mem hmem
  have hlawful := h.sound.drc.holds.obeys before (.began c key (.cached reply)) ⟨after, by rw [eq, List.append_assoc]; rfl⟩
  have hdue : DrcClaim.cached reply = DrcObs.due before key := hlawful
  unfold DrcObs.due at hdue
  split at hdue
  · cases hdue
  · split at hdue
    next x found =>
      cases hdue
      obtain ⟨c', stored⟩ := completed_of_kept (List.mem_of_find?_eq_some found)
      exact h.stored c' x.key x.reply x.doneAt (eq ▸ List.mem_append_left _ stored)
    · cases hdue

/-- Whatever the handler of a call that owns its key answers is stored. -/
theorem answer_stored (hsound : V3Front.Sound cfg (fun _ => True) s.front)
    {caller : Nat} {call : V3Call} {proc : Proc} {met : Met} (hserving : s.front.serving caller = some call)
    (howner : s.front.drc.callers caller = .owner call.key) (hcode : Proc.ofCode call.call.proc = some proc)
    (hdecodes : met.decodes = true) :
    DrcObs.completed caller call.key (call.capture s.delegations met) s.front.drc.now ∈
      (s.step cfg (.answer caller met)).front.drc.history := by
  obtain ⟨shard, complete, -⟩ := hsound.drc.holds.complete ((hsound.drc.owners caller call.key).1 howner)
    s.front.drc.now (call.capture s.delegations met)
  have hcaptured : call.capture s.delegations met ≠ [] := by
    rw [V3Call.capture, hcode]
    simp [hdecodes, beginResult, Xdr.putU32]
  have hfront : (s.step cfg (.answer caller met)).front =
      s.front.step cfg (.reply caller (call.capture s.delegations met)) := by
    simp [V3Server.step, event, hserving]
  rw [hfront]
  simp [V3Front.step, hserving, howner, hcaptured, Drc.step, complete]

end V3Server

theorem patient_of_run {events : List V3Step}
    (hready : (v3Server cfg).Meets V3Server.Ready {} events) :
    V3Server.Patient cfg ((v3Server cfg).run {} events) :=
  System.run_keeps (fun _ e h hready => h.step e hready) (V3Server.Patient.init cfg) hready

theorem sound_of_run (cfg : DrcConfig) (events : List V3Step) :
    V3Front.Sound cfg (fun _ => True) ((v3Server cfg).run {} events).front := by
  induction events using List.reverseRecOn with
  | nil => exact V3Front.Sound.init cfg _
  | append_singleton events e ih =>
    rw [System.run_append]
    exact V3Server.sound_step e ih

/-- In a run in which no handler of a cached procedure meets a delegation it has to recall, or a backend
that asks for patience, no JUKEBOX is stored or replayed. In any run, the answer of the handler of a call that
owns its key is stored, and it is JUKEBOX exactly when the handler met one of the two. -/
theorem try_later_not_stored (cfg : DrcConfig) :
    (∀ events, (v3Server cfg).Meets V3Server.Ready {} events →
      (∀ c key reply now, DrcObs.completed c key reply now ∈
        ((v3Server cfg).run {} events).front.drc.history → replyStatus reply ≠ 10008) ∧
      (∀ c key reply, DrcObs.began c key (.cached reply) ∈
        ((v3Server cfg).run {} events).front.drc.history → replyStatus reply ≠ 10008)) ∧
    (∀ events caller call proc met,
      let s := (v3Server cfg).run {} events
      s.front.serving caller = some call → s.front.drc.callers caller = .owner call.key →
      Proc.ofCode call.call.proc = some proc → met.decodes = true →
      DrcObs.completed caller call.key (call.capture s.delegations met) s.front.drc.now ∈
        (s.step cfg (.answer caller met)).front.drc.history ∧
      (replyStatus (call.capture s.delegations met) = 10008 ↔ TryLater s.delegations met proc)) := by
  refine ⟨fun events ready => ?_, fun events caller call proc met => ?_⟩
  · have hpatient := patient_of_run ready
    exact ⟨hpatient.stored, fun c key reply mem => hpatient.replayed mem⟩
  · intro s serving owner code decodes
    refine ⟨V3Server.answer_stored (sound_of_run cfg events) serving owner code decodes, ?_⟩
    refine capture_jukebox code ?_
    rw [V3Call.capture, code]
    simp [decodes, beginResult, Xdr.putU32]

/-- A REMOVE of the file `f`. -/
def removeCall : List Bytes :=
  [([7, 0, 2, 100003, 3, 12, 0, 0, 0, 0] : List UInt32).flatMap Xdr.putU32 ++
    (Xdr.putOpaque (List.replicate 14 0) ++ Xdr.putOpaque [102])]

/-- The REMOVE finds the file `1`. -/
def removeMet : Met :=
  { resolve := .ok ⟨1, ⟨[0], by decide⟩⟩, resolveTo := .error .stale, lookup := some ⟨1, ⟨[1], by decide⟩⟩ }

/-- Another file of the directory is delegated. -/
def otherDelegated : Delegations := { files := [⟨1, ⟨[2], by decide⟩⟩] }

theorem not_tryLater_elsewhere (proc : Proc) : ¬TryLater otherDelegated removeMet proc := by
  intro h
  cases h <;> simp_all [otherDelegated, removeMet, Delegations.recallNeeded]

/-- The REMOVE is answered, and its retransmission finds the answer. -/
def removedOnce (call : V3Call) : List V3Step :=
  [.delegate otherDelegated, .arrive 0 call, .answer 0 removeMet, .arrive 1 call]

theorem ready_removedOnce (cfg : DrcConfig) (call : V3Call) : (v3Server cfg).Meets V3Server.Ready {} (removedOnce call) :=
  ⟨trivial, trivial, fun _ proc _ _ _ => not_tryLater_elsewhere proc, trivial, trivial⟩

theorem try_later_not_stored_remove :
    let call : V3Call := ⟨.inet [10, 0, 0, 1] 700, removeCall, by decide +kernel⟩
    DrcObs.began 1 call.key (.cached (call.capture otherDelegated removeMet)) ∈
        ((v3Server ⟨120, 67108864⟩).run {} (removedOnce call)).front.drc.history ∧
      ∀ c key reply, DrcObs.began c key (.cached reply) ∈
        ((v3Server ⟨120, 67108864⟩).run {} (removedOnce call)).front.drc.history → replyStatus reply ≠ 10008 := by
  intro call
  obtain ⟨-, hreplayed⟩ :=
    (try_later_not_stored ⟨120, 67108864⟩).1 (removedOnce call) (ready_removedOnce ⟨120, 67108864⟩ call)
  refine ⟨?_, hreplayed⟩
  clear hreplayed
  decide +kernel

/-- A client holds a delegation for the file and returns it after the REMOVE was told to wait. The
retransmission finds the answer of the first call in the cache. -/
theorem try_later_replayed :
    let call : V3Call := ⟨.inet [10, 0, 0, 1] 700, removeCall, by decide +kernel⟩
    let file : FileKey := ⟨1, ⟨[1], by decide⟩⟩
    let met : Met := { resolve := .ok ⟨1, ⟨[0], by decide⟩⟩, resolveTo := .error .stale, lookup := some file }
    let s := (v3Server ⟨120, 67108864⟩).run {}
      [V3Step.delegate { files := [file] }, V3Step.arrive 0 call, V3Step.answer 0 met,
        V3Step.delegate {}, V3Step.arrive 1 call]
    let reply := call.capture { files := [file] } met
    s.delegations.files = [] ∧ replyStatus reply = 10008 ∧
      DrcObs.completed 0 call.key reply 0 ∈ s.front.drc.history ∧
      DrcObs.began 1 call.key (.cached reply) ∈ s.front.drc.history ∧
      s.front.answers = [.executed call, .replayed call (some call)] := by
  decide +kernel

end LightNfs
