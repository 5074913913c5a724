import LightNfs.Lib.Projection
import LightNfs.Lock.Refinement
import LightNfs.State.Server

/-!
# Byte-range locks mirrored into the storage

On an export with a native lock manager every lock the gateway table grants is pushed to the storage and
every release is mirrored there, each in a call of its own after the table's. The model of the state manager
takes the storage's answers from outside; here the storage's locks are part of the state, and the calls that
release them are frames.
-/

namespace LightNfs

def LockRange.has (r : LockRange) (b : UInt64) : Bool := r.offset ≤ b && b < rangeEnd r

theorem LockRange.has_iff {r : LockRange} {b : UInt64} : r.has b = true ↔ b ∈ r.bytes := by
  simp [has, LockRange.bytes]

/-- The state manager beside the storage. `granted` keeps what LOCK has granted and neither LOCKU nor the end of
the lock state has given back; it is only reasoned about. -/
structure Mirrored where
  shared : Shared := {}
  native : ByteMap := LockMap.empty
  granted : ByteMap := LockMap.empty

/-- The frames of the state manager, with the roll-back loop of LOCK and the calls of the native lock manager. -/
inductive NativeFrame where
  | base (f : Frame)
  /-- `release_owner` of a lock state that leaves the tables. -/
  | drop (r : StateRef) (handover : Bool)
  /-- `release_owner` before the owner's earlier coverage is locked again, and the loop that does it. -/
  | restore (ctx : LockCtx) (before : List LockSeg) (answer : Answer)
  | relock (ctx : LockCtx) (before : List LockSeg) (answer : Answer)
  /-- `native->unlock` and `native->release`. -/
  | unlock (file : FileKey) (lowner : LockOwnerId) (range : LockRange)
  | release (file : FileKey) (lowner : LockOwnerId)
deriving DecidableEq

namespace Mirrored

variable (cfg : Config)

/-- `push_native_lock` with its effect on the storage. -/
def push (s : Mirrored) (ctx : LockCtx) (before : List LockSeg) (outcome : NativeOutcome) :
    Mirrored × List NativeFrame :=
  match outcome with
  | .granted =>
    ({ s with
        native := s.native.put ctx.args.file ctx.lowner.view ctx.args.range.has (some ctx.args.exclusive)
        granted := s.granted.put ctx.args.file ctx.lowner.view ctx.args.range.has (some ctx.args.exclusive) },
      [.base (.lockRemember ctx)])
  | outcome =>
    (s,
      match s.shared.lockPush ctx before outcome with
      | [.lockRestore _ _, .lockRefused _ answer] => [.restore ctx before answer]
      | next => next.map .base)

/-- A grant that needs no storage is final at once. -/
def arbitrate (s : Mirrored) (ctx : LockCtx) (before : List LockSeg) (attempt : Nat) : Mirrored × List NativeFrame :=
  let out := s.shared.lockArbitrate cfg ctx before attempt
  let final := !cfg.nativeLocks ctx.args.file.fsid &&
    (s.shared.locks.lock ctx.args.file ctx.lowner ctx.args.range ctx.args.exclusive).2.isNone
  ({ s with
      shared := out.1
      granted := if final then
          s.granted.put ctx.args.file ctx.lowner.view ctx.args.range.has (some ctx.args.exclusive)
        else s.granted },
    out.2.map .base)

/-- LOCKU in the gateway table, with the storage's call behind it. -/
def unlockRange (s : Mirrored) (r : StateRef) (other : StateOther) (range : LockRange) :
    Mirrored × List NativeFrame :=
  let rec_ := s.shared.states r
  ({ s with
      shared := s.shared.lockuRange r range
      granted := s.granted.put rec_.key rec_.lowner.view range.has none },
    (if cfg.nativeLocks rec_.fsid then [.unlock rec_.key rec_.lowner range] else []) ++ [NativeFrame.base (.lockuBump r other)])

/-- A handover leaves the storage's locks to the next server. -/
def dropLocks (s : Mirrored) (r : StateRef) (handover : Bool) : Mirrored × List NativeFrame :=
  let rec_ := s.shared.states r
  ({ s with
      shared := s.shared.unlinkLocks r
      granted := s.granted.put rec_.key rec_.lowner.view (fun _ => true) none },
    if cfg.nativeLocks rec_.fsid ∧ !handover then [.release rec_.key rec_.lowner] else [])

def exec (input : Input) (frame : NativeFrame) (s : Mirrored) : Mirrored × List NativeFrame :=
  match frame with
  | .base (.lockPush ctx before) => s.push ctx before input.native
  | .base (.lockArbitrate ctx before attempt) => s.arbitrate cfg ctx before attempt
  | .base (.lockuRange r other range) => s.unlockRange cfg r other range
  | .base (.unlinkFile r fromClient handover) =>
    let out := s.shared.unlinkFile r fromClient handover
    ({ s with shared := out.1 },
      out.2.map fun
        | .unlinkLocks r => .drop r handover
        | f => .base f)
  | .base f =>
    let out := s.shared.exec cfg input f
    ({ s with shared := out.1 }, out.2.map .base)
  | .drop r handover => s.dropLocks cfg r handover
  | .restore ctx before answer =>
    ({ s with shared := (s.shared.lockRestore ctx before).1 }, [.relock ctx before answer])
  | .relock ctx [] answer => (s, [.base (.lockRefused ctx answer)])
  | .relock ctx (seg :: rest) answer => ({ s with shared := s.shared.lockRelock ctx seg }, [.relock ctx rest answer])
  | .unlock file lowner range => ({ s with native := s.native.put file lowner.view range.has none }, [])
  | .release file lowner => ({ s with native := s.native.put file lowner.view (fun _ => true) none }, [])

end Mirrored

def gateway (cfg : Config) : Machine Mirrored NativeFrame Input := ⟨fun input frame s => s.exec cfg input frame⟩

@[simp] theorem gateway_exec (cfg : Config) (input : Input) (frame : NativeFrame) (s : Mirrored) :
    (gateway cfg).exec input frame s = s.exec cfg input frame := rfl

abbrev gatewayBoot : Machine.Config Mirrored NativeFrame := Machine.start {}

/-! ### The state manager within -/

/-- The frames of the state manager a frame stands for. -/
def NativeFrame.frames : NativeFrame → List Frame
  | base f => [f]
  | drop r _ => [.unlinkLocks r]
  | restore ctx before answer => [.lockRestore ctx before, .lockRefused ctx answer]
  | relock ctx before answer => before.map (Frame.lockRelock ctx) ++ [Frame.lockRefused ctx answer]
  | unlock _ _ _ => []
  | release _ _ => []

theorem NativeFrame.flatMap_base (fs : List Frame) : (fs.map NativeFrame.base).flatMap NativeFrame.frames = fs := by
  simp [List.flatMap_map, NativeFrame.frames]

theorem gateway_projects (cfg : Config) :
    Machine.Projects (gateway cfg) (server cfg) Mirrored.shared NativeFrame.frames where
  exec input frame s := by
    cases frame with
    | base f =>
      refine Or.inl ⟨f, [], rfl, ?_⟩
      rw [List.append_nil]
      cases f with
      | lockPush ctx before =>
        rcases h : input.native with _ | (_ | _) | _ <;>
          simp [Mirrored.exec, Mirrored.push, h, Shared.exec, Shared.lockPush, NativeFrame.frames]
      | lockuRange r other range =>
        simp only [gateway_exec, server_exec, Mirrored.exec, Mirrored.unlockRange, Shared.exec]
        split <;> simp [NativeFrame.frames]
      | unlinkFile r fromClient handover =>
        refine ⟨rfl, ?_⟩
        simp only [gateway_exec, server_exec, Mirrored.exec, Shared.exec]
        generalize (s.shared.unlinkFile r fromClient handover).2 = next
        induction next with
        | nil => rfl
        | cons f next ih =>
          rw [List.map_cons, List.flatMap_cons, ih]
          cases f <;> rfl
      | _ => exact ⟨rfl, NativeFrame.flatMap_base _⟩
    | drop r handover =>
      refine Or.inl ⟨.unlinkLocks r, [], rfl, rfl, ?_⟩
      simp only [gateway_exec, server_exec, Mirrored.exec, Mirrored.dropLocks, Shared.exec]
      split <;> rfl
    | restore ctx before answer =>
      refine Or.inl ⟨.lockRestore ctx before, [.lockRefused ctx answer], rfl, rfl, ?_⟩
      simp [Mirrored.exec, Shared.exec, Shared.lockRestore, NativeFrame.frames]
    | relock ctx before answer =>
      cases before with
      | nil => exact Or.inr ⟨rfl, rfl⟩
      | cons seg rest =>
        refine Or.inl ⟨.lockRelock ctx seg, rest.map (Frame.lockRelock ctx) ++ [Frame.lockRefused ctx answer], rfl, rfl, ?_⟩
        simp [Mirrored.exec, Shared.exec, NativeFrame.frames]
    | unlock file lowner range => exact Or.inr ⟨rfl, rfl⟩
    | release file lowner => exact Or.inr ⟨rfl, rfl⟩

/-- Seen through the state manager, the run is one of the state manager's with no other requests. -/
def RefinesServer (cfg : Config) (events : List (Machine.Event NativeFrame Input)) : Prop :=
  ∃ inner, (server cfg).run boot inner =
      Machine.Projects.view Mirrored.shared NativeFrame.frames ((gateway cfg).run gatewayBoot events) ∧
    ∀ f, .spawn f ∈ inner → .spawn (.base f) ∈ events

/-- What holds in every run of the state manager holds of the one inside the gateway. -/
theorem gateway_refines_server (cfg : Config) (events : List (Machine.Event NativeFrame Input))
    (harrive : ∀ frame, .spawn frame ∈ events → ∃ f, frame = .base f) : RefinesServer cfg events := by
  have hone : ∀ frame, .spawn frame ∈ events → ∃ f, frame.frames = [f] := by
    intro frame hframe
    obtain ⟨f, rfl⟩ := harrive frame hframe
    exact ⟨f, rfl⟩
  obtain ⟨inner, hinner, hfrom⟩ := (gateway_projects cfg).run gatewayBoot events hone
  refine ⟨inner, hinner, fun f hf => ?_⟩
  obtain ⟨frame, hframe, heq⟩ := hfrom f hf
  obtain ⟨f', rfl⟩ := harrive frame hframe
  cases heq
  exact hframe

/-! ### A LOCK the storage refuses -/

/-- Every export has a native lock manager. -/
abbrev nativeConfig : Config := { nativeLocks := fun _ => true }

/-- A request of the state manager that takes `n` steps without interruption, as task `i`. -/
def mirroredRequest (i : Nat) (f : Frame) (n : Nat) : List (Machine.Event NativeFrame Input) :=
  .spawn (.base f) :: List.replicate n (Machine.Event.step i ({} : Input))

abbrev lockedFile : FileKey := ⟨1, ⟨[1], length_one_le⟩⟩

/-- A client opens the file, as tasks 0 to 3. -/
def opened : List (Machine.Event NativeFrame Input) :=
  mirroredRequest 0 (.exchangeId { ownerId := [65], verifier := 1, principal := [65], update := false }) 2 ++
    mirroredRequest 1 (.createSession { clientid := 0x100000001, sequence := 1, principal := [65] }) 7 ++
    mirroredRequest 2 (.reclaimComplete 0x100000001) 4 ++
    mirroredRequest 3
      (.openState { clientid := 0x100000001, file := lockedFile, owner := [97], access := 3, deny := 0 }) 8

/-- LOCK by one of the client's lock owners, with its open. -/
abbrev lockWithOpen (owner : Bytes) (range : LockRange) : Frame :=
  .lock { clientid := 0x100000001, file := lockedFile, exclusive := true, range := range, newOwner := true,
          openStateid := ⟨1, ⟨1, 1, 1⟩⟩, owner := owner }

abbrev lockOwner : Bytes := (makeLowner 0x100000001 [108]).view

/-- The owner's first LOCK is granted. The storage refuses its second, after a LOCK of another owner has been granted
meanwhile, and the roll-back is over. -/
def refusing : List (Machine.Event NativeFrame Input) :=
  opened ++ mirroredRequest 4 (lockWithOpen [108] ⟨0, 10⟩) 15 ++ mirroredRequest 5 (lockWithOpen [108] ⟨20, 10⟩) 8 ++
    mirroredRequest 6 (lockWithOpen [109] ⟨40, 10⟩) 15 ++
    Machine.Event.step 5 { native := .refused none } :: List.replicate 3 (Machine.Event.step 5 ({} : Input))

/-- The second LOCK is answered. -/
def refusedLock : List (Machine.Event NativeFrame Input) := refusing ++ [.step 5 {}, .step 5 {}]

/-- LOCKU gives part of the first owner's range back and CLOSE the rest. -/
def closedAfter : List (Machine.Event NativeFrame Input) :=
  refusedLock ++ mirroredRequest 7 (.locku ⟨1, ⟨1, 2, 2⟩⟩ 0x100000001 ⟨0, 5⟩ none) 7 ++
    mirroredRequest 8 (.closeState ⟨1, ⟨1, 1, 1⟩⟩ 0x100000001 (some lockedFile)) 17

theorem gateway_refines_server_closing :
    RefinesServer nativeConfig closedAfter ∧
      ((gateway nativeConfig).run gatewayBoot refusedLock).state.native lockedFile 5 lockOwner = some true ∧
      ((gateway nativeConfig).run gatewayBoot closedAfter).state.native lockedFile 5 lockOwner = none := by
  refine ⟨gateway_refines_server nativeConfig closedAfter fun frame hframe => ?_, by decide +kernel, by decide +kernel⟩
  cases frame with
  | base f => exact ⟨f, rfl⟩
  | _ => simp [closedAfter, refusedLock, refusing, opened, mirroredRequest] at hframe

end LightNfs
