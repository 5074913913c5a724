import LightNfs.State.Flow

/-!
# Which frames must follow a frame

`Follows` bounds what a section may leave to be done; `Must` is what it does leave. An invariant that is broken
between two sections of a request is stated with the frame that will restore it, and `exec_must` is how that
frame gets onto the stack.
-/

namespace LightNfs

inductive Must (cfg : Config) (t t' : Tables) : Frame → Frame → Prop
  -- `unlink_state`
  | reap {other : StateOther} {r : StateRef} (hr : t.table other = some r) :
      Must cfg t t' (.reapState other) (.unlinkState r false false)
  | unlinkFile {r : StateRef} {fromClient handover : Bool} (hopen : (t.states r).closed = false) :
      Must cfg t t' (.unlinkState r fromClient handover) (.unlinkFile r fromClient handover)
  | unlinkLocks {r : StateRef} {fromClient handover : Bool} (htype : (t.states r).type = .kLock) :
      Must cfg t t' (.unlinkFile r fromClient handover) (.unlinkLocks r)
  | unlinkDependent {r l : StateRef} {fromClient handover : Bool} (htype : (t.states r).type = .kOpen)
      (hl : l ∈ (t.fileAt (t.states r).key).locks) (hparent : (t.states l).parentOpen = some r) :
      Must cfg t t' (.unlinkFile r fromClient handover) (.unlinkState l fromClient handover)
  | untrackState {r : StateRef} {handover : Bool} : Must cfg t t' (.unlinkFile r true handover) (.untrackState r handover)
  -- new records
  | openInsert {c : ClientRef} {args : OpenArgs} {attempt : Nat} (hnew : t'.stateRefs ≠ t.stateRefs) :
      Must cfg t t' (.openArbitrate c args attempt) (.openInsert c t.stateRefs)
  | grantInsert {c : ClientRef} {other : StateOther} {args : GrantArgs} (hnew : t'.stateRefs ≠ t.stateRefs) :
      Must cfg t t' (.grantFile c other args) (.grantInsert c t.stateRefs)
  | lockInsert {ctx : LockCtx} (hnew : t'.stateRefs ≠ t.stateRefs) :
      Must cfg t t' (.lockFile ctx) (.lockInsert ctx.client t.stateRefs)
  | openTrack {c : ClientRef} {r : StateRef} : Must cfg t t' (.openInsert c r) (.openTrack c r)
  | grantTrack {c : ClientRef} {r : StateRef} : Must cfg t t' (.grantInsert c r) (.grantTrack c r)
  | lockTrack {c : ClientRef} {r : StateRef} : Must cfg t t' (.lockInsert c r) (.lockTrack c r)
  | trackUndo {f : Frame} {c : ClientRef} {r : StateRef} (hf : f = .openTrack c r ∨ f = .lockTrack c r)
      (hexp : (t.clients c).expired = true) : Must cfg t t' f (.unlinkState r false false)
  | grantCount {c : ClientRef} {r : StateRef} (hexp : (t.clients c).expired = true) :
      Must cfg t t' (.grantTrack c r) (.grantCount c r true false)
  | grantUndo {c : ClientRef} {r : StateRef} {firstInFs : Bool} :
      Must cfg t t' (.grantCount c r true firstInFs) (.unlinkState r false false)
  -- LOCK after its grant
  | lockFile {ctx : LockCtx} : Must cfg t t' (.lockRemember ctx) (.lockFile ctx)
  | lockPush {ctx : LockCtx} {before : List LockSeg} {attempt : Nat}
      (hgranted : (t.locks.lock ctx.args.file ctx.lowner ctx.args.range ctx.args.exclusive).2 = none)
      (hnative : cfg.nativeLocks ctx.args.file.fsid = true) :
      Must cfg t t' (.lockArbitrate ctx before attempt) (.lockPush ctx before)
  | lockRemember {ctx : LockCtx} {before : List LockSeg} {attempt : Nat}
      (hgranted : (t.locks.lock ctx.args.file ctx.lowner ctx.args.range ctx.args.exclusive).2 = none)
      (hnative : cfg.nativeLocks ctx.args.file.fsid = false) :
      Must cfg t t' (.lockArbitrate ctx before attempt) (.lockRemember ctx)

namespace Shared

variable {cfg : Config} {s : Shared}

theorem must_openArbitrate {c : ClientRef} {args : OpenArgs} {attempt : Nat}
    (hnew : (s.openArbitrate cfg c args attempt).1.stateRefs ≠ s.stateRefs) :
    Frame.openInsert c s.stateRefs ∈ (s.openArbitrate cfg c args attempt).2 := by
  revert hnew
  unfold openArbitrate
  dsimp only
  split
  · exact fun hnew => absurd rfl hnew
  · split
    · exact fun hnew => absurd rfl hnew
    · split
      · exact fun hnew => absurd rfl hnew
      · split
        · exact fun hnew => absurd rfl hnew
        · exact fun _ => List.mem_singleton_self _

theorem must_grantFile {c : ClientRef} {other : StateOther} {args : GrantArgs}
    (hnew : (s.grantFile c other args).1.stateRefs ≠ s.stateRefs) :
    Frame.grantInsert c s.stateRefs ∈ (s.grantFile c other args).2 := by
  revert hnew
  unfold grantFile
  split
  · exact fun hnew => absurd rfl hnew
  · exact fun _ => List.mem_singleton_self _

theorem must_lockFile {ctx : LockCtx} (hnew : (s.lockFile cfg ctx).1.stateRefs ≠ s.stateRefs) :
    Frame.lockInsert ctx.client s.stateRefs ∈ (s.lockFile cfg ctx).2 := by
  revert hnew
  unfold lockFile
  split
  · exact fun _ => List.mem_singleton_self _
  · exact fun hnew => absurd rfl hnew

theorem must_register {c : ClientRef} {r : StateRef} (hexp : (s.clients c).expired = true)
    (refused accepted : List Frame) : Frame.unlinkState r false false ∈ (s.register cfg c r refused accepted).2 := by
  rw [register, if_pos hexp]
  exact List.mem_cons_self ..

theorem exec_must (s : Shared) (cfg : Config) (input : Input) {f g : Frame}
    (h : Must cfg s.tables (s.exec cfg input f).1.tables f g) : g ∈ (s.exec cfg input f).2 := by
  cases h with
  | @reap other r hr =>
    have hfind : s.table.find other = some r := hr
    simp [exec, reapState, hfind]
  | @unlinkFile r fromClient handover hopen =>
    have hopen' : (s.states r).closed = false := hopen
    simp [exec, unlinkState, hopen']
  | @unlinkLocks r fromClient handover htype =>
    have htype' : (s.states r).type = .kLock := htype
    simp [exec, unlinkFile, htype']
  | @unlinkDependent r l fromClient handover htype hl hparent =>
    have htype' : (s.states r).type = .kOpen := htype
    have hparent' : (s.states l).parentOpen = some r := hparent
    rw [fileAt_tables] at hl
    have hmem : l ∈ s.dependents r := by
      rw [dependents, if_pos htype']
      exact List.mem_filter.mpr ⟨hl, decide_eq_true hparent'⟩
    simp [exec, unlinkFile, hmem]
  | untrackState => simp [exec, unlinkFile]
  | openInsert hnew => exact must_openArbitrate hnew
  | grantInsert hnew => exact must_grantFile hnew
  | lockInsert hnew => exact must_lockFile hnew
  | openTrack => simp [exec, openInsert]
  | grantTrack => simp [exec, grantInsert]
  | lockTrack => simp [exec, lockInsert]
  | trackUndo hf hexp =>
    rcases hf with rfl | rfl
    · exact must_register hexp _ _
    · exact must_register hexp _ _
  | @grantCount c r hexp =>
    have hexp' : (s.clients c).expired = true := hexp
    simp [exec, grantTrack, hexp']
  | grantUndo => simp [exec, grantCount]
  | lockFile => simp [exec, lockRemember]
  | lockPush hgranted hnative =>
    have hgranted' : (s.locks.lock _ _ _ _).2 = none := hgranted
    simp [exec, lockArbitrate, hgranted', hnative]
  | lockRemember hgranted hnative =>
    have hgranted' : (s.locks.lock _ _ _ _).2 = none := hgranted
    simp [exec, lockArbitrate, hgranted', hnative]

end Shared

end LightNfs
