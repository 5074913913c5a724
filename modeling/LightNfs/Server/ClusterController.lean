import LightNfs.Cluster.Fence
import LightNfs.Lib.Threads

/-!
# The failover controller

In a failover cluster one gateway serves and the others stand by. The one that serves holds the cluster's fence, a
record with a lease; the controller of each gateway owns its role and decides when to switch it. Ticks run on the
controller's timer thread, an operator's requests on another, and the work on the data plane is posted to the main
loop. A step of the model is one store call, one section under the controller's mutex or one hook.
-/

namespace LightNfs

inductive Role where
  | standby
  | activating
  | active
  | draining
deriving DecidableEq

/-- `ttl()` of a renewal period, both in milliseconds. -/
def fenceTtl (fenceLease : UInt32) : Int64 := (3 * fenceLease).toUInt64.toInt64

/-- The settings of `[cluster]` a controller reads: its name, `takeover = "auto"`, `role = "standby"` and the renewal
period in milliseconds. -/
structure ClusterConfig where
  node : Text
  takeoverAuto : Bool := true
  roleStandby : Bool := false
  fenceLease : UInt32 := 3000

namespace ClusterConfig

def ttl (cfg : ClusterConfig) : Int64 := fenceTtl cfg.fenceLease

def autoTakeoverAllowed (cfg : ClusterConfig) : Bool := cfg.takeoverAuto && !cfg.roleStandby

end ClusterConfig

def FenceRecord.expired (rec : FenceRecord) (now : Int64) : Bool := now > rec.expires + kFenceSkewTolerance

/-! ### The fence of the whole cluster -/

/-- The files `fence` and `epoch` of the shared directory. -/
structure FailoverStore where
  fence : Option FenceRecord := none
  epoch : UInt64 := 0
deriving DecidableEq

namespace FailoverStore

/-- `acquire_fence`; a call that fails for a reason of the file system changes nothing. -/
def acquireFence (store : FailoverStore) (now : Int64) (fault : Option Errno) (node : Text) (epoch : UInt64)
    (ttl : Int64) (force : Bool) : Except Errno FenceRecord × FailoverStore :=
  match fault with
  | some e => (.error e, store)
  | none =>
    if store.fence.any (fun rec => !force && rec.node != node && !rec.expired now) then (.error .busy, store)
    else (.ok ⟨node, epoch, now + ttl⟩, { store with fence := some ⟨node, epoch, now + ttl⟩ })

def renewFence (store : FailoverStore) (now : Int64) (fault : Option Errno) (node : Text) (ttl : Int64) :
    Except Errno Unit × FailoverStore :=
  match fault, store.fence with
  | some e, _ => (.error e, store)
  | none, none => (.error .perm, store)
  | none, some rec =>
    if rec.node ≠ node then (.error .perm, store)
    else (.ok (), { store with fence := some { rec with expires := now + ttl } })

def releaseFence (store : FailoverStore) (fault : Option Errno) (node : Text) : FailoverStore :=
  match fault, store.fence with
  | none, some rec => if rec.node = node then { store with fence := none } else store
  | _, _ => store

end FailoverStore

/-! ### The controller -/

/-- What a controller remembers, and whether the last hook it called was an `activate` that succeeded. -/
structure Controller where
  role : Role := .standby
  epoch : UInt64 := 0
  fence : Option FenceRecord := none
  renewFailures : Nat := 0
  plane : Bool := false
deriving DecidableEq

/-- The places where a thread of the controller may be. -/
inductive ControllerFrame where
  -- `tick_once` and `renew`
  | tick
  | readFence
  | noteFence (fence : Option FenceRecord)
  | renew
  | renewed
  | renewFailed
  | readTheirs
  | noteTheirs (fence : FenceRecord)
  -- `begin_activation`
  | beginActivation (force : Bool)
  | readEpoch (force : Bool) (prev : Text)
  | acquireFence (force : Bool) (prev : Text) (epoch : UInt64)
  | bumpEpoch (prev : Text) (fence : FenceRecord)
  | undoFence
  | backToStandby
  | noteTaken (prev : Text) (fence : FenceRecord) (epoch : UInt64)
  | postActivation (epoch : UInt64) (prev : Text)
  -- `run_activation`: the hooks, then the section that switches the role
  | runActivation (epoch : UInt64) (prev : Text)
  | switchRole (activated : Bool)
  -- `begin_draining` and `run_draining`
  | beginDraining (fenceLost : Bool)
  | postDraining (release : Bool)
  | runDraining (release : Bool)
  | releaseFence
  | drained
  -- requests
  | requestTakeover (force : Bool)
  | requestStandby
deriving DecidableEq

/-- The shared directory, the clock and one gateway. `taken` says that another node has taken the fence since this
gateway last did. -/
structure Failover where
  store : FailoverStore := {}
  now : Int64 := 0
  controller : Controller := {}
  taken : Bool := false

namespace Failover

variable (cfg : ClusterConfig)

/-- The record seen last is free: there is none, it is this node's or it has expired. -/
def free (now : Int64) (fence : Option FenceRecord) : Bool :=
  fence.all fun rec => rec.node == cfg.node || rec.expired now

/-- Executes one frame. The input says whether the store call or the hook of the frame fails. -/
def exec (input : Option Errno) : ControllerFrame → Failover → Failover × List ControllerFrame × List ControllerFrame
  | .tick, s =>
    match s.controller.role with
    | .standby => (s, [.readFence], [])
    | .activating | .active => (s, [.renew], [])
    | .draining => (s, [], [])
  | .readFence, s =>
    match input with
    | some _ => (s, [], [])
    | none => (s, [.noteFence s.store.fence], [])
  | .noteFence fence, s =>
    ({ s with controller.fence := fence },
      if cfg.autoTakeoverAllowed && free cfg s.now fence then [.beginActivation false] else [], [])
  | .renew, s =>
    match s.store.renewFence s.now input cfg.node cfg.ttl with
    | (.ok _, store) => ({ s with store }, [.renewed], [])
    | (.error .perm, store) => ({ s with store }, [.readTheirs], [])
    | (.error _, store) => ({ s with store }, [.renewFailed], [])
  | .renewed, s =>
    ({ s with
        controller.renewFailures := 0
        controller.fence := s.controller.fence.map fun rec => { rec with expires := s.now + cfg.ttl } }, [], [])
  | .renewFailed, s =>
    ({ s with controller.renewFailures := s.controller.renewFailures + 1 },
      if s.controller.renewFailures + 1 ≥ 3 then [.beginDraining true] else [], [])
  | .readTheirs, s =>
    match input, s.store.fence with
    | none, some rec => (s, [.noteTheirs rec, .beginDraining true], [])
    | _, _ => (s, [.beginDraining true], [])
  | .noteTheirs rec, s => ({ s with controller.fence := some rec }, [], [])
  | .beginActivation force, s =>
    if s.controller.role ≠ .standby then (s, [], [])
    else
      ({ s with controller.role := .activating, controller.renewFailures := 0 },
        [.readEpoch force (((s.controller.fence.map (·.node)).filter (· != cfg.node)).getD [])], [])
  | .readEpoch force prev, s =>
    match input with
    | some _ => (s, [.backToStandby], [])
    | none => (s, [.acquireFence force prev (s.store.epoch + 1)], [])
  | .acquireFence force prev epoch, s =>
    match s.store.acquireFence s.now input cfg.node epoch cfg.ttl force with
    | (.ok rec, store) => ({ s with store, taken := false }, [.bumpEpoch prev rec], [])
    | (.error _, store) => ({ s with store }, [.backToStandby], [])
  | .bumpEpoch prev rec, s =>
    match input with
    | some _ => (s, [.undoFence], [])
    | none => ({ s with store.epoch := s.store.epoch + 1 }, [.noteTaken prev rec (s.store.epoch + 1)], [])
  | .undoFence, s => ({ s with store := s.store.releaseFence input cfg.node }, [.backToStandby], [])
  | .backToStandby, s => ({ s with controller.role := .standby }, [], [])
  | .noteTaken prev rec epoch, s =>
    ({ s with controller.fence := some rec, controller.epoch := epoch }, [.postActivation epoch prev], [])
  | .postActivation epoch prev, s => (s, [], [.runActivation epoch prev])
  | .runActivation _ _, s => ({ s with controller.plane := input.isNone }, [.switchRole input.isNone], [])
  | .switchRole activated, s =>
    if s.controller.role ≠ .activating then (s, [], [])
    else if activated then ({ s with controller.role := .active }, [], [])
    else
      -- the fence is released under the mutex
      ({ s with controller.role := .standby, store := s.store.releaseFence input cfg.node }, [], [])
  | .beginDraining fenceLost, s =>
    if s.controller.role ≠ .active ∧ s.controller.role ≠ .activating then (s, [], [])
    else ({ s with controller.role := .draining }, [.postDraining !fenceLost], [])
  | .postDraining release, s => (s, [], [.runDraining release])
  | .runDraining release, s =>
    ({ s with controller.plane := false }, if release then [.releaseFence] else [.drained], [])
  | .releaseFence, s => ({ s with store := s.store.releaseFence input cfg.node }, [.drained], [])
  | .drained, s => ({ s with controller.role := .standby, controller.epoch := 0 }, [], [])
  | .requestTakeover force, s =>
    (s, if s.controller.role ≠ .standby then [] else [.beginActivation force], [])
  | .requestStandby, s => (s, if s.controller.role ≠ .active then [] else [.beginDraining false], [])

/-- What may happen next: a tick is due, a request arrives, a thread goes on, time passes, or another node acquires,
renews or releases the fence or, having acquired it, counts the epoch up. -/
inductive Event where
  | tick
  | takeover (force : Bool)
  | standby
  | step (thread : Thread) (input : Option Errno)
  | pass (now : Int64)
  | otherAcquires (node : Text) (epoch : UInt64) (ttl : Int64) (force : Bool)
  | otherRenews (node : Text) (ttl : Int64)
  | otherReleases (node : Text)
  | otherBumps

def step (s : Failover × Threads ControllerFrame) : Event → Failover × Threads ControllerFrame
  | .tick => (s.1, s.2.call .timer .tick)
  | .takeover force => (s.1, s.2.call .requests (.requestTakeover force))
  | .standby => (s.1, s.2.call .requests .requestStandby)
  | .step thread input => Threads.advance (exec cfg input) thread s.1 s.2
  | .pass now => ({ s.1 with now }, s.2)
  | .otherAcquires node epoch ttl force =>
    if node = cfg.node then s
    else
      match s.1.store.acquireFence s.1.now none node epoch ttl force with
      | (.ok _, store) => ({ s.1 with store, taken := true }, s.2)
      | (.error _, _) => s
  | .otherRenews node ttl =>
    if node = cfg.node then s else ({ s.1 with store := (s.1.store.renewFence s.1.now none node ttl).2 }, s.2)
  | .otherReleases node =>
    if node = cfg.node then s else ({ s.1 with store := s.1.store.releaseFence none node }, s.2)
  | .otherBumps => ({ s.1 with store.epoch := s.1.store.epoch + 1 }, s.2)

def system : System (Failover × Threads ControllerFrame) Event := ⟨step cfg⟩

end Failover

/-! ### The pipeline of a role change

Between two steps of a role change its thread is at one of a few frames. Their tokens on the timer and the request
thread, and the jobs on the loop, say how far the change is. -/

/-- An activation not yet posted, with the fence taken or not; a drain not yet posted; a job. -/
inductive ControllerToken where
  | inFlight (fenced : Bool)
  | handing
  | job
deriving DecidableEq

def ControllerFrame.token : ControllerFrame → Option ControllerToken
  | readEpoch .. | acquireFence .. | undoFence | backToStandby => some (.inFlight false)
  | bumpEpoch .. | noteTaken .. | postActivation .. => some (.inFlight true)
  | postDraining _ => some .handing
  | runActivation .. | switchRole _ | runDraining _ | releaseFence | drained => some .job
  | _ => none

namespace Failover

/-- The tokens on the two threads that are not the loop. -/
def tokens (ts : Threads ControllerFrame) : List ControllerToken :=
  (ts.timer ++ ts.requests).filterMap ControllerFrame.token

/-- No activation has set the role without having posted its job. -/
def NoneInFlight (ts : Threads ControllerFrame) : Prop := ∀ fenced, ControllerToken.inFlight fenced ∉ tokens ts

instance (ts : Threads ControllerFrame) : Decidable (NoneInFlight ts) :=
  decidable_of_iff (.inFlight false ∉ tokens ts ∧ .inFlight true ∉ tokens ts)
    ⟨fun h fenced => by cases fenced; exacts [h.1, h.2], fun h => ⟨h false, h true⟩⟩

/-- A drain begins only between activations: not from the moment one has set the role until it has posted its job. -/
def DrainsBetween (s : Failover × Threads ControllerFrame) : Event → Prop
  | .step thread _ =>
    (∃ lost, (s.2.stack thread).head? = some (.beginDraining lost)) → s.1.controller.role = .activating → NoneInFlight s.2
  | _ => True

instance (s : Failover × Threads ControllerFrame) (e : Event) : Decidable (DrainsBetween s e) :=
  match e with
  | .step thread _ =>
    decidable_of_iff
      (((s.2.stack thread).head? = some (.beginDraining true) ∨ (s.2.stack thread).head? = some (.beginDraining false)) →
        s.1.controller.role = .activating → NoneInFlight s.2)
      ⟨fun h ⟨lost, hlost⟩ => h (by cases lost <;> simp [hlost]), fun h hlost => h (hlost.elim (⟨_, ·⟩) (⟨_, ·⟩))⟩
  | .tick | .takeover _ | .standby | .pass _ | .otherAcquires .. | .otherRenews .. | .otherReleases _ | .otherBumps =>
    isTrue trivial

variable (cfg : ClusterConfig)

/-- The fence record names this node, unless another node has taken it since. -/
def FenceKept (s : Failover) : Prop := s.taken = true ∨ ∃ rec, s.store.fence = some rec ∧ rec.node = cfg.node

/-- The job of an activation and what its hook has left so far. -/
def ActivationJob (plane : Bool) (loop : List ControllerFrame) : Prop :=
  plane = false ∧ (∃ epoch prev, loop = [.runActivation epoch prev]) ∨ loop = [.switchRole plane]

/-- What an activation that was overtaken by a drain may have left on the loop. -/
def Leftover (loop : List ControllerFrame) : Prop :=
  loop = [] ∨ (∃ epoch prev, loop = [.runActivation epoch prev]) ∨ ∃ activated, loop = [.switchRole activated]

/-- How far the current role change is, by the role. -/
def Stage (s : Failover) (tokens : List ControllerToken) (loop : List ControllerFrame) : Prop :=
  match s.controller.role with
  | .standby => tokens = [] ∧ loop = [] ∧ s.controller.plane = false
  | .activating =>
    (∃ fenced, tokens = [.inFlight fenced] ∧ loop = [] ∧ s.controller.plane = false ∧
      (fenced = true → s.FenceKept cfg)) ∨
    tokens = [] ∧ ActivationJob s.controller.plane loop ∧ s.FenceKept cfg
  | .active => tokens = [] ∧ loop = [] ∧ s.controller.plane = true ∧ s.FenceKept cfg
  | .draining =>
    tokens = [.handing] ∧ Leftover loop ∨
    tokens = [] ∧ ((∃ old release, loop = old ++ [ControllerFrame.runDraining release] ∧ Leftover old) ∨
      (loop = [.releaseFence] ∨ loop = [.drained]) ∧ s.controller.plane = false)

variable {cfg}

theorem Stage.of_same {s s' : Failover} {tokens : List ControllerToken} {loop : List ControllerFrame}
    (h : s.Stage cfg tokens loop) (hrole : s'.controller.role = s.controller.role)
    (hplane : s'.controller.plane = s.controller.plane) (hkept : s.FenceKept cfg → s'.FenceKept cfg) :
    s'.Stage cfg tokens loop := by
  unfold Stage at h ⊢
  rw [hrole, hplane]
  cases hcase : s.controller.role <;> simp only [hcase] at h ⊢
  · exact h
  · obtain ⟨fenced, htokens, hloop, hoff, hfenced⟩ | ⟨htokens, hjob, hfence⟩ := h
    · exact .inl ⟨fenced, htokens, hloop, hoff, fun hf => hkept (hfenced hf)⟩
    · exact .inr ⟨htokens, hjob, hkept hfence⟩
  · exact ⟨h.1, h.2.1, h.2.2.1, hkept h.2.2.2⟩
  · exact h

/-! ### The fence under store calls -/

theorem FenceKept.renewFence {s : Failover} (h : s.FenceKept cfg) (fault : Option Errno) (node : Text) (ttl : Int64) :
    ({ s with store := (s.store.renewFence s.now fault node ttl).2 } : Failover).FenceKept cfg := by
  unfold FailoverStore.renewFence
  obtain htaken | ⟨rec, hfence, hnode⟩ := h
  · exact .inl htaken
  · cases fault with
    | some e => exact .inr ⟨rec, by simpa using hfence, hnode⟩
    | none =>
      simp only [hfence]
      split
      · exact .inr ⟨rec, hfence, hnode⟩
      · exact .inr ⟨_, rfl, hnode⟩

theorem FenceKept.releaseFence {s : Failover} (h : s.FenceKept cfg) (fault : Option Errno) {node : Text}
    (hother : node ≠ cfg.node) :
    ({ s with store := s.store.releaseFence fault node } : Failover).FenceKept cfg := by
  obtain htaken | ⟨rec, hfence, hnode⟩ := h
  · exact .inl htaken
  · refine .inr ⟨rec, ?_, hnode⟩
    have hne : rec.node ≠ node := fun heq => hother (heq.symm.trans hnode)
    cases fault <;> simp [FailoverStore.releaseFence, hfence, hne]

theorem acquireFence_ok {store store' : FailoverStore} {now : Int64} {fault : Option Errno} {node : Text}
    {epoch : UInt64} {ttl : Int64} {force : Bool} {rec : FenceRecord}
    (h : store.acquireFence now fault node epoch ttl force = (.ok rec, store')) :
    store'.fence = some rec ∧ rec.node = node := by
  unfold FailoverStore.acquireFence at h
  split at h
  · cases h
  · split at h <;> cases h
    exact ⟨rfl, rfl⟩

/-! ### One step -/

section Stage

variable {s : Failover} {before after : List ControllerToken} {loop : List ControllerFrame}
variable {frame : ControllerFrame}

theorem eq_nil_of_single {before after : List ControllerToken} {a b : ControllerToken}
    (h : before ++ a :: after = [b]) : before = [] ∧ after = [] ∧ a = b := by
  cases before <;> simp_all

theorem Stage.inFlight {fenced : Bool} (h : s.Stage cfg (before ++ ControllerToken.inFlight fenced :: after) loop) :
    before = [] ∧ after = [] ∧ loop = [] ∧ s.controller.role = .activating ∧ s.controller.plane = false ∧
      (fenced = true → s.FenceKept cfg) := by
  unfold Stage at h
  cases hrole : s.controller.role <;> simp only [hrole] at h
  · simp at h
  · obtain ⟨fenced', htokens, hloop, hoff, hfenced⟩ | ⟨htokens, -⟩ := h
    · obtain ⟨rfl, rfl, heq⟩ := eq_nil_of_single htokens
      cases heq
      exact ⟨rfl, rfl, hloop, rfl, hoff, hfenced⟩
    · simp at htokens
  · simp at h
  · obtain ⟨htokens, -⟩ | ⟨htokens, -⟩ := h
    · cases (eq_nil_of_single htokens).2.2
    · simp at htokens

theorem Stage.handing (h : s.Stage cfg (before ++ ControllerToken.handing :: after) loop) :
    before = [] ∧ after = [] ∧ s.controller.role = .draining ∧ Leftover loop := by
  unfold Stage at h
  cases hrole : s.controller.role <;> simp only [hrole] at h
  · simp at h
  · obtain ⟨fenced, htokens, -⟩ | ⟨htokens, -⟩ := h
    · cases (eq_nil_of_single htokens).2.2
    · simp at htokens
  · simp at h
  · obtain ⟨htokens, hloop⟩ | ⟨htokens, -⟩ := h
    · obtain ⟨rfl, rfl, -⟩ := eq_nil_of_single htokens
      exact ⟨rfl, rfl, rfl, hloop⟩
    · simp at htokens

theorem Stage.not_job (h : s.Stage cfg (before ++ ControllerToken.job :: after) loop) : False := by
  unfold Stage at h
  cases hrole : s.controller.role <;> simp only [hrole] at h
  · simp at h
  · obtain ⟨fenced, htokens, -⟩ | ⟨htokens, -⟩ := h
    · cases (eq_nil_of_single htokens).2.2
    · simp at htokens
  · simp at h
  · obtain ⟨htokens, -⟩ | ⟨htokens, -⟩ := h
    · cases (eq_nil_of_single htokens).2.2
    · simp at htokens

theorem Stage.outside {s' : Failover} {next : List ControllerFrame} (h : s.Stage cfg (before ++ after) loop)
    (hnext : next.filterMap ControllerFrame.token = []) (hrole : s'.controller.role = s.controller.role)
    (hplane : s'.controller.plane = s.controller.plane) (hkept : s.FenceKept cfg → s'.FenceKept cfg) :
    s'.Stage cfg (before ++ (next.filterMap ControllerFrame.token ++ after)) (loop ++ []) := by
  rw [hnext, List.nil_append, List.append_nil]
  exact h.of_same hrole hplane hkept

theorem Stage.flying {s' : Failover} {fenced : Bool}
    (htoken : frame.token = some (.inFlight fenced)) (hbefore : before = []) (hafter : after = []) (hloop : loop = [])
    (hrole : s'.controller.role = .activating) (hplane : s'.controller.plane = false)
    (hkept : fenced = true → s'.FenceKept cfg) :
    s'.Stage cfg (before ++ ([frame].filterMap ControllerFrame.token ++ after)) (loop ++ []) := by
  subst hbefore hafter hloop
  simp only [Stage, hrole, List.filterMap_cons, htoken]
  exact .inl ⟨fenced, rfl, rfl, hplane, hkept⟩

/-- A frame that is executed on the timer or the request thread, `before` and `after` being the tokens of the other
frames on these threads. -/
theorem Stage.exec (input : Option Errno)
    (h : s.Stage cfg (before ++ (frame.token.toList ++ after)) loop)
    (hguard : ∀ lost, frame = .beginDraining lost → s.controller.role = .activating →
      ∀ fenced, ControllerToken.inFlight fenced ∉ before ++ after) :
    (Failover.exec cfg input frame s).1.Stage cfg
      (before ++ ((Failover.exec cfg input frame s).2.1.filterMap ControllerFrame.token ++ after))
      (loop ++ (Failover.exec cfg input frame s).2.2) := by
  cases frame
  case tick =>
    simp only [Failover.exec]
    cases s.controller.role <;> exact h.outside rfl rfl rfl id
  case readFence =>
    cases input <;> exact h.outside rfl rfl rfl id
  case noteFence fence =>
    refine h.outside ?_ rfl rfl id
    simp only [Failover.exec]
    split <;> rfl
  case renew =>
    have hrenew : ∀ answer store, s.store.renewFence s.now input cfg.node cfg.ttl = (answer, store) →
        s.FenceKept cfg → ({ s with store } : Failover).FenceKept cfg := by
      intro answer store heq hkept
      simpa only [heq] using hkept.renewFence input cfg.node cfg.ttl
    simp only [Failover.exec]
    split <;> exact h.outside rfl rfl rfl (hrenew _ _ ‹_›)
  case renewed => exact h.outside rfl rfl rfl id
  case renewFailed =>
    refine h.outside ?_ rfl rfl id
    simp only [Failover.exec]
    split <;> rfl
  case readTheirs =>
    simp only [Failover.exec]
    split <;> exact h.outside rfl rfl rfl id
  case noteTheirs rec => exact h.outside rfl rfl rfl id
  case beginActivation force =>
    by_cases hrole : s.controller.role = .standby
    · simp only [Failover.exec, hrole, ne_eq, not_true_eq_false, if_false]
      have hnone : before ++ after = [] ∧ loop = [] ∧ s.controller.plane = false := by
        simpa [Stage, hrole, ControllerFrame.token] using h
      obtain ⟨hbefore, hafter⟩ := List.append_eq_nil_iff.1 hnone.1
      exact Stage.flying rfl hbefore hafter hnone.2.1 rfl hnone.2.2 nofun
    · simp only [Failover.exec, hrole, ne_eq, not_false_eq_true, if_true]
      exact h.outside rfl rfl rfl id
  case readEpoch force prev =>
    obtain ⟨hbefore, hafter, hloop, hrole, hplane, -⟩ := h.inFlight
    cases input <;> exact Stage.flying rfl hbefore hafter hloop hrole hplane nofun
  case acquireFence force prev epoch =>
    obtain ⟨hbefore, hafter, hloop, hrole, hplane, -⟩ := h.inFlight
    simp only [Failover.exec]
    split
    · rename_i rec store heq
      obtain ⟨hfence, hnode⟩ := acquireFence_ok heq
      exact Stage.flying rfl hbefore hafter hloop hrole hplane fun _ => .inr ⟨rec, hfence, hnode⟩
    · exact Stage.flying rfl hbefore hafter hloop hrole hplane nofun
  case bumpEpoch prev rec =>
    obtain ⟨hbefore, hafter, hloop, hrole, hplane, hkept⟩ := h.inFlight
    cases input
    · exact Stage.flying rfl hbefore hafter hloop hrole hplane hkept
    · exact Stage.flying rfl hbefore hafter hloop hrole hplane nofun
  case undoFence =>
    obtain ⟨hbefore, hafter, hloop, hrole, hplane, -⟩ := h.inFlight
    exact Stage.flying rfl hbefore hafter hloop hrole hplane nofun
  case backToStandby =>
    obtain ⟨rfl, rfl, rfl, -, hplane, -⟩ := h.inFlight
    exact ⟨rfl, rfl, hplane⟩
  case noteTaken prev rec epoch =>
    obtain ⟨hbefore, hafter, hloop, hrole, hplane, hkept⟩ := h.inFlight
    exact Stage.flying rfl hbefore hafter hloop hrole hplane hkept
  case postActivation epoch prev =>
    obtain ⟨rfl, rfl, rfl, hrole, hplane, hkept⟩ := h.inFlight
    simp only [Stage, Failover.exec, hrole]
    exact .inr ⟨rfl, .inl ⟨hplane, epoch, prev, rfl⟩, hkept rfl⟩
  case beginDraining lost =>
    by_cases hrole : s.controller.role ≠ .active ∧ s.controller.role ≠ .activating
    · simp only [Failover.exec, if_pos hrole]
      exact h.outside rfl rfl rfl id
    · have hleft : before = [] ∧ after = [] ∧ Leftover loop := by
        cases hcase : s.controller.role <;> simp only [hcase] at hrole <;>
          simp only [Stage, hcase, ControllerFrame.token, Option.toList_none, List.nil_append,
            List.append_eq_nil_iff] at h
        · exact absurd ⟨nofun, nofun⟩ hrole
        · obtain ⟨fenced, htokens, -⟩ | ⟨htokens, hjob, -⟩ := h
          · exact absurd (by simp [htokens]) (hguard lost rfl hcase fenced)
          · refine ⟨htokens.1, htokens.2, ?_⟩
            obtain ⟨-, hrun⟩ | hswitch := hjob
            · exact .inr (.inl hrun)
            · exact .inr (.inr ⟨_, hswitch⟩)
        · exact ⟨h.1.1, h.1.2, .inl h.2.1⟩
        · exact absurd ⟨nofun, nofun⟩ hrole
      obtain ⟨rfl, rfl, hleft⟩ := hleft
      simp only [Failover.exec, if_neg hrole, Stage, List.append_nil]
      exact .inl ⟨rfl, hleft⟩
  case postDraining release =>
    obtain ⟨rfl, rfl, hrole, hleft⟩ := h.handing
    simp only [Stage, Failover.exec, hrole]
    exact .inr ⟨rfl, .inl ⟨loop, release, rfl, hleft⟩⟩
  case requestTakeover force =>
    refine h.outside ?_ rfl rfl id
    simp only [Failover.exec]
    split <;> rfl
  case requestStandby =>
    refine h.outside ?_ rfl rfl id
    simp only [Failover.exec]
    split <;> rfl
  all_goals exact h.not_job.elim

theorem Stage.exec_loop {tokens : List ControllerToken} {rest : List ControllerFrame}
    (input : Option Errno) (h : s.Stage cfg tokens (frame :: rest)) :
    (Failover.exec cfg input frame s).1.Stage cfg tokens
      ((Failover.exec cfg input frame s).2.1 ++ rest ++ (Failover.exec cfg input frame s).2.2) := by
  unfold Stage at h
  cases hrole : s.controller.role <;> simp only [hrole] at h
  case standby => simp at h
  case active => simp at h
  case activating =>
    obtain ⟨_, -, hloop, -⟩ | ⟨htokens, hjob, hkept⟩ := h
    · cases hloop
    · obtain ⟨-, epoch, prev, hloop⟩ | hloop := hjob <;> cases hloop
      · simp only [Failover.exec, Stage, hrole]
        exact .inr ⟨htokens, .inr rfl, hkept⟩
      · cases hplane : s.controller.plane with
        | true =>
          simp only [Failover.exec, hrole, hplane, Stage, ne_eq, not_true_eq_false, if_false, if_true]
          exact ⟨htokens, rfl, trivial, hkept⟩
        | false =>
          simp only [Failover.exec, hrole, Stage, ne_eq, not_true_eq_false, if_false, Bool.false_eq_true]
          exact ⟨htokens, rfl, hplane⟩
  case draining =>
    -- what an overtaken activation still does: its hook, and a switch that finds another role
    have hold : ∀ f fs, Leftover (f :: fs) →
        fs = [] ∧ (Failover.exec cfg input f s).1.controller.role = .draining ∧
          Leftover (Failover.exec cfg input f s).2.1 ∧ (Failover.exec cfg input f s).2.2 = [] := by
      rintro f fs (hnil | ⟨epoch, prev, hrun⟩ | ⟨activated, hswitch⟩)
      · cases hnil
      · cases hrun
        exact ⟨rfl, hrole, .inr (.inr ⟨_, rfl⟩), rfl⟩
      · cases hswitch
        simp only [Failover.exec, hrole, ne_eq, reduceCtorEq, not_false_eq_true, if_true]
        exact ⟨trivial, trivial, .inl rfl, trivial⟩
    obtain ⟨htokens, hleft⟩ | ⟨htokens, ⟨old, release, hloop, hleft⟩ | ⟨hloop | hloop, hplane⟩⟩ := h
    · obtain ⟨rfl, hrole', hleft', hjobs⟩ := hold _ _ hleft
      simp only [Stage, hrole', hjobs, List.append_nil]
      exact .inl ⟨htokens, hleft'⟩
    · cases old with
      | nil =>
        cases hloop
        simp only [Failover.exec, Stage, hrole]
        refine .inr ⟨htokens, .inr ⟨?_, trivial⟩⟩
        cases release <;> simp
      | cons f fs =>
        obtain ⟨rfl, rfl⟩ := List.cons.inj hloop
        obtain ⟨rfl, hrole', hleft', hjobs⟩ := hold _ _ hleft
        simp only [Stage, hrole', hjobs, List.append_nil]
        exact .inr ⟨htokens, .inl ⟨_, release, rfl, hleft'⟩⟩
    · cases hloop
      simp only [Failover.exec, Stage, hrole]
      exact .inr ⟨htokens, .inr ⟨.inr rfl, hplane⟩⟩
    · cases hloop
      exact ⟨htokens, rfl, hplane⟩

end Stage

/-! ### Runs -/

variable (cfg) in
def Sound (s : Failover × Threads ControllerFrame) : Prop := s.1.Stage cfg (tokens s.2) s.2.loop

theorem tokens_call (ts : Threads ControllerFrame) {frame : ControllerFrame} (hframe : frame.token = none)
    {thread : Thread} (hthread : thread ≠ .loop) :
    tokens (ts.call thread frame) = tokens ts ∧ (ts.call thread frame).loop = ts.loop := by
  unfold Threads.call
  split
  · rename_i hidle
    cases thread <;> simp_all [tokens, Threads.replace, Threads.stack]
  · exact ⟨rfl, rfl⟩

theorem Sound.step_thread {s : Failover × Threads ControllerFrame} (h : Sound cfg s) {thread : Thread}
    {input : Option Errno} (hguard : DrainsBetween s (.step thread input)) :
    Sound cfg (step cfg s (.step thread input)) := by
  obtain ⟨s, ts⟩ := s
  cases hstack : ts.stack thread with
  | nil => simpa only [step, Threads.advance_nil hstack] using h
  | cons frame rest =>
    simp only [step, Threads.advance_cons hstack]
    have hdrain : ∀ lost, frame = .beginDraining lost → s.controller.role = .activating → NoneInFlight ts :=
      fun lost hframe hrole => hguard ⟨lost, by simp [hstack, hframe]⟩ hrole
    have hsplit : ∀ before after, tokens ts = before ++ (frame.token.toList ++ after) →
        (exec cfg input frame s).1.Stage cfg
          (before ++ ((exec cfg input frame s).2.1.filterMap ControllerFrame.token ++ after))
          (ts.loop ++ (exec cfg input frame s).2.2) := by
      intro before after htokens
      have hstage : s.Stage cfg (before ++ (frame.token.toList ++ after)) ts.loop := by
        rw [← htokens]
        exact h
      refine hstage.exec input fun lost hframe hrole fenced hmem => hdrain lost hframe hrole fenced ?_
      rw [htokens]
      simp only [List.mem_append] at hmem ⊢
      tauto
    cases thread with
    | timer =>
      replace hstack : ts.timer = frame :: rest := hstack
      have hnext := hsplit [] (rest.filterMap ControllerFrame.token ++ ts.requests.filterMap ControllerFrame.token)
        (by simp only [tokens, hstack, List.filterMap_append, Threads.filterMap_cons_toList, List.nil_append, List.append_assoc])
      simpa [Sound, tokens, Threads.replace, Threads.post, List.filterMap_append] using hnext
    | requests =>
      replace hstack : ts.requests = frame :: rest := hstack
      have hnext := hsplit (ts.timer.filterMap ControllerFrame.token) (rest.filterMap ControllerFrame.token)
        (by simp only [tokens, hstack, List.filterMap_append, Threads.filterMap_cons_toList])
      simpa [Sound, tokens, Threads.replace, Threads.post, List.filterMap_append] using hnext
    | loop =>
      replace hstack : ts.loop = frame :: rest := hstack
      have hloop : s.Stage cfg (tokens ts) (frame :: rest) := hstack ▸ h
      exact hloop.exec_loop input

theorem Sound.step {s : Failover × Threads ControllerFrame} {e : Event} (h : Sound cfg s) (hguard : DrainsBetween s e) :
    Sound cfg (Failover.step cfg s e) := by
  have hcall : ∀ thread frame, frame.token = none → thread ≠ .loop → Sound cfg (s.1, s.2.call thread frame) := by
    intro thread frame hframe hthread
    obtain ⟨htokens, hloop⟩ := tokens_call s.2 hframe hthread
    show s.1.Stage cfg (tokens (s.2.call thread frame)) (s.2.call thread frame).loop
    rw [htokens, hloop]
    exact h
  cases e with
  | tick => exact hcall .timer .tick rfl nofun
  | takeover force => exact hcall .requests (.requestTakeover force) rfl nofun
  | standby => exact hcall .requests .requestStandby rfl nofun
  | step thread input => exact h.step_thread hguard
  | pass | otherBumps => exact Stage.of_same h rfl rfl id
  | otherAcquires node epoch ttl force =>
    simp only [Failover.step]
    split
    · exact h
    · split
      · exact Stage.of_same h rfl rfl fun _ => .inl rfl
      · exact h
  | otherRenews node ttl =>
    simp only [Failover.step]
    split
    · exact h
    · exact Stage.of_same h rfl rfl fun hkept => hkept.renewFence none node ttl
  | otherReleases node =>
    simp only [Failover.step]
    split
    · exact h
    · rename_i hother
      exact Stage.of_same h rfl rfl fun hkept => hkept.releaseFence none hother

/-- A controller that has just been created beside any store. -/
def fresh (store : FailoverStore) (now : Int64) : Failover × Threads ControllerFrame := ({ store, now }, {})

/-- While drains begin only between activations, the data plane of a gateway with nothing in progress follows its role,
and the gateway holds the fence under which it serves until another node takes it. -/
theorem data_plane_follows_role (cfg : ClusterConfig) (store : FailoverStore) (now : Int64) (es : List Event)
    (hdrains : (system cfg).Meets DrainsBetween (fresh store now) es) :
    let s := (system cfg).run (fresh store now) es
    s.2.Idle → (s.1.controller.plane = true ↔ s.1.controller.role = .active) ∧
      (s.1.controller.role = .active ∨ s.1.controller.plane = true → s.1.FenceKept cfg) := by
  intro s hidle
  have hstart : Sound cfg (fresh store now) := ⟨rfl, rfl, rfl⟩
  have hstep : ∀ s e, Sound cfg s → DrainsBetween s e → Sound cfg ((system cfg).step s e) := fun _ _ => Sound.step
  have hsound : Sound cfg s := System.run_keeps hstep hstart hdrains
  obtain ⟨hthreads, hloop⟩ := List.append_eq_nil_iff.1 hidle
  have htokens : tokens s.2 = [] := by rw [tokens, hthreads]; rfl
  unfold Sound Stage at hsound
  rw [htokens, hloop] at hsound
  cases hrole : s.1.controller.role <;> simp only [hrole] at hsound ⊢
  · simp [hsound.2.2]
  · simp [ActivationJob] at hsound
  · simp [hsound.2.2.1, hsound.2.2.2]
  · simp at hsound

/-- Frames executed one after the other without a failure. -/
def steps (threads : List Thread) : List Event := threads.map (.step · none)

/-- A gateway takes over, serves, loses the fence to a forced takeover and drains. -/
def lostFence : List Event :=
  [Event.tick] ++ steps (.replicate 9 .timer) ++ steps [.loop, .loop] ++ [Event.otherAcquires ['b'] 2 9000 true, .otherBumps,
    .tick] ++ steps (.replicate 6 .timer) ++ steps [.loop, .loop]

theorem data_plane_follows_role_lost :
    ((system { node := ['a'] }).run (fresh {} 0) lostFence).2.Idle ∧
      (((system { node := ['a'] }).run (fresh {} 0) lostFence).1.controller.plane = true ↔
        ((system { node := ['a'] }).run (fresh {} 0) lostFence).1.controller.role = .active) := by
  have hmeets : (system { node := ['a'] }).Meets DrainsBetween (fresh {} 0) lostFence := by decide +kernel
  have hidle : ((system { node := ['a'] }).run (fresh {} 0) lostFence).2.Idle := by decide +kernel
  have hfollows := data_plane_follows_role { node := ['a'] } {} 0 lostFence hmeets
  exact ⟨hidle, (hfollows hidle).1⟩

/-- A tick finds the role set by a takeover whose fence is not taken yet, takes the fence for lost and drains. The
takeover goes on, and its job activates the data plane of a gateway that stands by. -/
theorem data_plane_outlives_role :
    let cfg : ClusterConfig := { node := ['a'] }
    let es := [Event.takeover false] ++ steps [.requests, .requests] ++ [Event.tick] ++ steps (.replicate 5 .timer) ++
      steps (.replicate 5 .requests) ++ steps (.replicate 4 .loop)
    let s := (system cfg).run (fresh {} 0) es
    s.2.Idle ∧ s.1.controller.plane = true ∧ s.1.controller.role = .standby := by
  decide +kernel

end Failover

end LightNfs
