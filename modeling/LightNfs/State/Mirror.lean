import LightNfs.State.Native
import LightNfs.State.Runs

/-!
# The storage's locks and the gateway's

A lock operation works on one owner's coverage of one file, first in the gateway table and then in the
storage. Between the two the operation *holds* that owner and file. As long as no other operation gets in
between, and no other owner is granted what a refused LOCK has to lock again, the two views agree for every
owner and file that nothing holds, and a LOCK that the storage refuses loses nothing.
-/

namespace LightNfs

/-! ### Operations in progress -/

namespace NativeFrame

variable (cfg : Config)

/-- The file and owner a LOCK, LOCKU or release is in the middle of. -/
def holds : NativeFrame → Option (FileKey × Bytes)
  | base (.lockArbitrate ctx _ _) | base (.lockConflict ctx _ _ _) | base (.lockPush ctx _)
  | restore ctx _ _ | relock ctx _ _ =>
    if cfg.nativeLocks ctx.args.file.fsid then some (ctx.args.file, ctx.lowner.view) else none
  | unlock file lowner _ | release file lowner =>
    if cfg.nativeLocks file.fsid then some (file, lowner.view) else none
  | _ => none

/-- The owner's earlier coverage that a LOCK locks again if the storage refuses. -/
def snapshot : NativeFrame → List LockSeg
  | base (.lockArbitrate _ before _) | base (.lockConflict _ before _ _) | base (.lockPush _ before)
  | restore _ before _ | relock _ before _ => before
  | _ => []

/-- The file and owner whose coverage a frame begins to work on. -/
def enters (s : Mirrored) : NativeFrame → Option (FileKey × Bytes)
  | base (.lockBefore ctx) => some (ctx.args.file, ctx.lowner.view)
  | base (.lockuRange r _ _) | drop r _ => some ((s.shared.states r).key, (s.shared.states r).lowner.view)
  | _ => none

/-- The request of a LOCK does not conflict with what another LOCK on the file may have to lock again. -/
def SparesSnapshot (f g : NativeFrame) : Prop :=
  match f with
  | base (.lockArbitrate ctx _ _) =>
    (g.holds cfg).map Prod.fst = some ctx.args.file →
      ∀ seg ∈ g.snapshot, GatewayLockMgr.conflicting (some ctx.lowner) ctx.args.range.offset (rangeEnd ctx.args.range)
        ctx.args.exclusive seg = false
  | _ => True

instance (f g : NativeFrame) : Decidable (f.SparesSnapshot cfg g) := by
  unfold SparesSnapshot
  split <;> infer_instance

end NativeFrame

/-- No operation begins to work on an owner's coverage of a file while another one is in the middle of it, and no
LOCK asks for what another owner's unfinished LOCK may have to lock again. -/
def Uncontended (cfg : Config) (s : Mirrored) (fs : List NativeFrame) (f : NativeFrame) : Prop :=
  (∀ k ∈ f.enters s, ∀ g ∈ fs.erase f, g.holds cfg ≠ some k) ∧ ∀ g ∈ fs.erase f, f.SparesSnapshot cfg g

instance (cfg : Config) (s : Mirrored) (fs : List NativeFrame) (f : NativeFrame) : Decidable (Uncontended cfg s fs f) :=
  inferInstanceAs (Decidable (_ ∧ _))

/-- Frames of requests other than the release of an export, with the ranges `op_lock` lets through but one: the last
byte, asked for with the length that means to the end of the file, is an empty segment in the gateway table. Only
exports with a native lock manager get as far as the storage. -/
def Frame.Regular (cfg : Config) : Frame → Prop
  | lock args | lockGate _ args | lockGrace _ args _ _ | lockState _ args _ | lockCheck _ args _ _ =>
    args.range.offset < rangeEnd args.range
  | lockCaps ctx | lockArbitrate ctx _ _ | lockConflict ctx _ _ _ => ctx.args.range.offset < rangeEnd ctx.args.range
  | lockBefore ctx | lockPush ctx _ =>
    ctx.args.range.offset < rangeEnd ctx.args.range ∧ cfg.nativeLocks ctx.args.file.fsid = true
  | unlinkState _ _ handover | unlinkFile _ _ handover => handover = false
  | releaseFsid _ | releaseScan _ _ _ | releaseVictims _ _ _ | unlinkLocks _ | lockRestore _ _ | lockRelock _ _ => False
  | _ => True

instance (cfg : Config) : DecidablePred (Frame.Regular cfg) := fun f => by
  apply @Frame.casesOn _ f <;> intros <;> dsimp only [Frame.Regular] <;> infer_instance

def NativeFrame.Regular (cfg : Config) : NativeFrame → Prop
  | base f => f.Regular cfg
  | drop _ handover => handover = false
  | restore ctx _ _ | relock ctx _ _ => cfg.nativeLocks ctx.args.file.fsid = true
  | unlock file _ _ | release file _ => cfg.nativeLocks file.fsid = true

def NativeFrame.Arrives (cfg : Config) : NativeFrame → Prop
  | base f => f.Request ∧ f.Regular cfg
  | _ => False

instance (cfg : Config) : DecidablePred (NativeFrame.Arrives cfg) := fun f => by
  apply @NativeFrame.casesOn _ f <;> intros <;> dsimp only [NativeFrame.Arrives] <;> infer_instance

/-- Any requests but the release of an export, interleaved so that lock operations do not get in each other's way. -/
abbrev uncontended (cfg : Config) : Machine.Rules Mirrored NativeFrame Input where
  spawn _ _ f := f.Arrives cfg
  step s fs _ f := Uncontended cfg s fs f

/-! ### Frames that leave the locks alone -/

/-- Frames with no part in the mirroring. -/
def Frame.Unmirrored (cfg : Config) : Frame → Prop
  | lockCaps _ | lockBefore _ | lockArbitrate _ _ _ | lockConflict _ _ _ _ | lockPush _ _ | lockuRange _ _ _
  | unlinkFile _ _ _ => False
  | f => f.Regular cfg

namespace Tables

variable (cfg : Config) (t : Tables) (c : ClientRef)

theorem locks_unpersist : (t.unpersist cfg c).locks = t.locks := by
  unfold unpersist
  split <;> rfl

theorem locks_dropUnconfirmed (slot : OwnerSlot) :
    (t.dropUnconfirmed cfg slot).locks = t.locks := by
  unfold dropUnconfirmed
  split <;> rfl

theorem locks_retireOld : (t.retireOld cfg c).locks = t.locks := by
  unfold retireOld
  split <;> rfl

theorem locks_dropFromFile (r : StateRef) : (t.dropFromFile r).locks = t.locks := by
  unfold dropFromFile
  dsimp only
  split <;> rfl

theorem Vacated.locks_eq {cfg : Config} {t u : Tables} {o : Bytes} {slot : OwnerSlot} (h : t.Vacated cfg o slot u) :
    u.locks = t.locks := by
  cases h with
  | same => rfl
  | evicted => exact locks_unpersist cfg t _

end Tables

theorem Change.locks_eq {cfg : Config} {t t' : Tables} {f : Frame} (h : Change cfg t f t') (hf : f.Unmirrored cfg) :
    t'.locks = t.locks := by
  cases h with
  | exchangeFull hu => exact (Tables.locks_dropUnconfirmed ..).trans hu.locks_eq
  | exchangeNew hu => exact (Tables.locks_dropUnconfirmed ..).trans hu.locks_eq
  | createFirst => exact Tables.locks_retireOld ..
  | destroyClient | scanLapsed | unpersist => exact Tables.locks_unpersist ..
  | dropFromFile | releaseLocks | lockArbitrate | lockRestore | lockRelock | unlock => exact hf.elim
  | _ => rfl

theorem Follows.plain {cfg : Config} {t u : Tables} {f g : Frame} (h : Follows cfg t u f g) (hf : f.Unmirrored cfg) :
    g.Regular cfg ∧ (NativeFrame.base g).holds cfg = none := by
  cases h with
  | lockFirst hor =>
    rcases hor with rfl | rfl
    · exact hf.elim
    · exact hf.elim
  | _ => first | exact ⟨trivial, rfl⟩ | exact ⟨hf, rfl⟩ | exact hf.elim | exact ⟨rfl, rfl⟩

/-! ### The two views in step -/

abbrev Coverage := UInt64 → Option Bool

def ByteMap.col (n : ByteMap) (k : FileKey × Bytes) : Coverage := fun b => n k.1 b k.2

/-- The segments are the owner's and cover exactly what it was granted. -/
structure Snapshot (before : List LockSeg) (owner : Bytes) (granted : Coverage) : Prop where
  segs : ∀ seg ∈ before, seg.start < seg.stop ∧ seg.owner.view = owner
  covers : ∀ mode b, Holds before owner mode b ↔ granted b = some mode

/-- The owner's coverage is being locked again, with the segments still to go. -/
structure Restoring (rest : List LockSeg) (owner : Bytes) (table granted : Coverage) : Prop where
  segs : ∀ seg ∈ rest, seg.start < seg.stop ∧ seg.owner.view = owner
  sound : ∀ mode b, table b = some mode ∨ Holds rest owner mode b → granted b = some mode
  complete : ∀ mode b, granted b = some mode → table b = some mode ∨ Holds rest owner mode b

/-- How the coverage in the gateway table and in the storage stands to what the owner was granted, while the frame's
operation is in the middle of it. -/
def NativeFrame.Stage (table native granted : Coverage) : NativeFrame → Prop
  | base (.lockArbitrate ctx before _) | base (.lockConflict ctx before _ _) =>
    Snapshot before ctx.lowner.view granted ∧ native = granted ∧ table = granted
  | base (.lockPush ctx before) | restore ctx before _ =>
    Snapshot before ctx.lowner.view granted ∧ native = granted ∧
      table = fun b => if ctx.args.range.has b then some ctx.args.exclusive else granted b
  | relock ctx rest _ => Restoring rest ctx.lowner.view table granted ∧ native = granted
  | unlock _ _ range => table = granted ∧ granted = fun b => if range.has b then none else native b
  | release _ _ => table = granted ∧ granted = fun _ => none
  | _ => True

theorem Restoring.lockNext {seg : LockSeg} {rest : List LockSeg} {owner : Bytes} {table granted : Coverage}
    (h : Restoring (seg :: rest) owner table granted) {test : UInt64 → Bool} (htest : ∀ b, test b = true ↔ seg.Mem b) :
    Restoring rest owner (fun b => if test b then some seg.exclusive else table b) granted := by
  have hseg : ∀ b, test b = true → granted b = some seg.exclusive := fun b hb =>
    h.sound _ b (Or.inr ⟨seg, by simp, (h.segs seg (by simp)).2, rfl, (htest b).mp hb⟩)
  refine ⟨fun seg' hseg' => h.segs seg' (by simp [hseg']), fun mode b hb => ?_, fun mode b hb => ?_⟩
  · rcases hb with hb | ⟨seg', hin, hrest⟩
    · split at hb
      · next hin => exact (hseg b hin).trans hb
      · exact h.sound mode b (Or.inl hb)
    · exact h.sound mode b (Or.inr ⟨seg', by simp [hin], hrest⟩)
  · by_cases hin : test b = true
    · exact Or.inl (by rw [if_pos hin, ← hseg b hin, hb])
    · rcases h.complete mode b hb with hb | ⟨seg', hseg', howner, hmode, hmem⟩
      · exact Or.inl (by rw [if_neg hin, hb])
      · rcases List.mem_cons.mp hseg' with rfl | hseg'
        · exact absurd ((htest b).mpr hmem) hin
        · exact Or.inr ⟨seg', hseg', howner, hmode, hmem⟩

namespace Mirrored

/-- The byte is the owner's in the gateway table, or it was granted it and may get it back. -/
def Claims (s : Mirrored) (g : ByteMap) (k : FileKey × Bytes) (b : UInt64) (mode : Bool) : Prop :=
  g.col k b = some mode ∨ s.granted.col k b = some mode

/-- The invariant, with the coverage of the gateway table as a map. -/
structure Agrees (cfg : Config) (s : Mirrored) (g : ByteMap) (fs : List NativeFrame) : Prop where
  refines : s.shared.locks.Refines g
  nonEmpty : s.shared.locks.AllNonEmpty
  regular : ∀ f ∈ fs, f.Regular cfg
  tickets : (fs.filterMap (NativeFrame.holds cfg)).Nodup
  staged : ∀ f ∈ fs, ∀ k, f.holds cfg = some k → f.Stage (g.col k) (s.native.col k) (s.granted.col k)
  idle : ∀ k, cfg.nativeLocks k.1.fsid = true → k ∉ fs.filterMap (NativeFrame.holds cfg) →
    g.col k = s.granted.col k ∧ s.native.col k = s.granted.col k
  apart : ∀ k k', cfg.nativeLocks k.1.fsid = true → k.1 = k'.1 → k ≠ k' → ∀ b mode mode',
    s.Claims g k b mode → s.Claims g k' b mode' → mode = false ∧ mode' = false

variable {cfg : Config} {s s' : Mirrored} {g g' : ByteMap} {pre post next : List NativeFrame} {f : NativeFrame}
variable {k : FileKey × Bytes} {n : NativeFrame}

theorem Agrees.boot : Agrees cfg gatewayBoot.state LockMap.empty gatewayBoot.frames where
  refines := GatewayLockMgr.refines_empty
  nonEmpty := fun file s hs => by cases hs
  regular := by simp
  tickets := by simp
  staged := by simp
  idle _ _ _ := ⟨rfl, rfl⟩
  apart _ _ _ _ _ b _ _ h := by rcases h with h | h <;> cases h

theorem eq_of_holds {p : Bool} {k' : FileKey × Bytes} (h : (if p = true then some k' else none) = some k) :
    p = true ∧ k' = k := by
  cases p <;> simp_all

theorem holds_native (h : n.holds cfg = some k) :
    cfg.nativeLocks k.1.fsid = true := by
  cases n with
  | base f =>
    cases f with
    | lockArbitrate | lockConflict | lockPush =>
      obtain ⟨hnat, rfl⟩ := eq_of_holds h
      exact hnat
    | _ => cases h
  | drop => cases h
  | restore | relock | unlock | release =>
    obtain ⟨hnat, rfl⟩ := eq_of_holds h
    exact hnat

theorem granted_cases {table native granted : Coverage}
    (hholds : n.holds cfg = some k) (hstage : n.Stage table native granted) {b : UInt64} {mode : Bool}
    (hb : granted b = some mode) :
    table b = some mode ∨
      (∀ seg ∈ n.snapshot, seg.start < seg.stop ∧ seg.owner.view = k.2) ∧ Holds n.snapshot k.2 mode b := by
  cases n with
  | base f =>
    cases f with
    | lockArbitrate | lockConflict => exact Or.inl (hstage.2.2 ▸ hb)
    | lockPush =>
      obtain ⟨-, rfl⟩ := eq_of_holds hholds
      exact Or.inr ⟨hstage.1.segs, (hstage.1.covers mode b).mpr hb⟩
    | _ => cases hholds
  | drop => cases hholds
  | restore =>
    obtain ⟨-, rfl⟩ := eq_of_holds hholds
    exact Or.inr ⟨hstage.1.segs, (hstage.1.covers mode b).mpr hb⟩
  | relock =>
    obtain ⟨-, rfl⟩ := eq_of_holds hholds
    exact (hstage.1.complete mode b hb).imp_right fun hrest => ⟨hstage.1.segs, hrest⟩
  | unlock | release => exact Or.inl (hstage.1 ▸ hb)

theorem Agrees.plain (h : Agrees cfg s g (pre ++ f :: post)) (hf : f.holds cfg = none)
    (hlocks : s'.shared.locks = s.shared.locks) (hnative : s'.native = s.native) (hgranted : s'.granted = s.granted)
    (hnext : ∀ n ∈ next, n.Regular cfg ∧ n.holds cfg = none) : Agrees cfg s' g (pre ++ (next ++ post)) := by
  have hnone : next.filterMap (NativeFrame.holds cfg) = [] := List.filterMap_eq_nil_iff.mpr fun n hn => (hnext n hn).2
  have hsame : (pre ++ (next ++ post)).filterMap (NativeFrame.holds cfg) =
      (pre ++ f :: post).filterMap (NativeFrame.holds cfg) := by
    simp [List.filterMap_append, hnone, List.filterMap_cons_none hf]
  refine
    { refines := hlocks ▸ h.refines
      nonEmpty := hlocks ▸ h.nonEmpty
      regular := Machine.forall_frames_step h.regular (fun _ => id) fun n hn => (hnext n hn).1
      tickets := hsame ▸ h.tickets
      staged := fun n hn k hk => ?_
      idle := fun k hnat hk => ?_
      apart := fun k k' hnat hfile hne b mode mode' hc hc' => ?_ }
  · rcases Machine.mem_of_mem_step (f := f) hn with hn | hn
    · rw [(hnext n hn).2] at hk
      cases hk
    · rw [hnative, hgranted]
      exact h.staged n hn k hk
  · rw [hnative, hgranted]
    exact h.idle k hnat (hsame ▸ hk)
  · simp only [Claims, hgranted] at hc hc'
    exact h.apart k k' hnat hfile hne b mode mode' hc hc'

theorem Agrees.update (h : Agrees cfg s g (pre ++ f :: post)) (k : FileKey × Bytes)
    (halone : k ∉ (pre ++ post).filterMap (NativeFrame.holds cfg)) (hf : ∀ k', f.holds cfg = some k' → k' = k)
    (hrefines : s'.shared.locks.Refines g') (hnonEmpty : s'.shared.locks.AllNonEmpty)
    (hcols : ∀ k', k' ≠ k → g'.col k' = g.col k' ∧ s'.native.col k' = s.native.col k' ∧
      s'.granted.col k' = s.granted.col k')
    (hnext : ∀ n ∈ next, n.Regular cfg ∧ ∀ k', n.holds cfg = some k' →
      k' = k ∧ n.Stage (g'.col k) (s'.native.col k) (s'.granted.col k))
    (htickets : next.filterMap (NativeFrame.holds cfg) = [k] ∨ next.filterMap (NativeFrame.holds cfg) = [] ∧
      (cfg.nativeLocks k.1.fsid = true → g'.col k = s'.granted.col k ∧ s'.native.col k = s'.granted.col k))
    (hclaims : cfg.nativeLocks k.1.fsid = true → ∀ k', k.1 = k'.1 → k ≠ k' → ∀ b mode mode', s'.Claims g' k b mode →
      s.Claims g k' b mode' → mode = false ∧ mode' = false) :
    Agrees cfg s' g' (pre ++ (next ++ post)) := by
  have hwaiting : ((pre ++ post).filterMap (NativeFrame.holds cfg)).Nodup := by
    refine h.tickets.sublist (List.Sublist.filterMap _ ?_)
    exact List.Sublist.append_left (List.sublist_cons_self f post) pre
  have hother : ∀ n ∈ pre ++ post, ∀ k', n.holds cfg = some k' → k' ≠ k := by
    rintro n hn k' hk' rfl
    exact halone (List.mem_filterMap.mpr ⟨n, hn, hk'⟩)
  have hclaimsOf : ∀ {k'}, k' ≠ k → ∀ {b mode}, s'.Claims g' k' b mode → s.Claims g k' b mode := by
    intro k' hne b mode hc
    simpa only [Claims, (hcols k' hne).1, (hcols k' hne).2.2] using hc
  refine
    { refines := hrefines
      nonEmpty := hnonEmpty
      regular := Machine.forall_frames_step h.regular (fun _ => id) fun n hn => (hnext n hn).1
      tickets := ?_
      staged := fun n hn k' hk' => ?_
      idle := fun k' hnat hk' => ?_
      apart := fun k₁ k₂ hnat hfile hne b mode mode' hc hc' => ?_ }
  · have hperm : ((pre ++ (next ++ post)).filterMap (NativeFrame.holds cfg)).Perm
        (next.filterMap (NativeFrame.holds cfg) ++ (pre ++ post).filterMap (NativeFrame.holds cfg)) := by
      simp only [List.filterMap_append]
      rw [← List.append_assoc, ← List.append_assoc]
      exact (List.perm_append_comm).append_right _
    rw [hperm.nodup_iff]
    rcases htickets with hone | ⟨hnone, -⟩
    · rw [hone, List.singleton_append]
      exact List.nodup_cons.mpr ⟨halone, hwaiting⟩
    · rw [hnone, List.nil_append]
      exact hwaiting
  · rcases Machine.new_or_waiting hn with hn | hn
    · obtain ⟨rfl, hstage⟩ := (hnext n hn).2 k' hk'
      exact hstage
    · obtain ⟨hg, hnative, hgranted⟩ := hcols k' (hother n hn k' hk')
      rw [hg, hnative, hgranted]
      exact h.staged n (Machine.mem_of_waiting hn) k' hk'
  · by_cases hkk : k' = k
    · subst hkk
      rcases htickets with hone | ⟨-, hidle⟩
      · refine absurd ?_ hk'
        rw [List.filterMap_append, List.filterMap_append, hone]
        simp
      · exact hidle hnat
    · obtain ⟨hg, hnative, hgranted⟩ := hcols k' hkk
      rw [hg, hnative, hgranted]
      refine h.idle k' hnat fun hin => hk' ?_
      obtain ⟨n, hn, hholds⟩ := List.mem_filterMap.mp hin
      refine List.mem_filterMap.mpr ⟨n, Machine.mem_step_of_ne next hn ?_, hholds⟩
      rintro rfl
      exact hkk (hf k' hholds)
  · by_cases h₁ : k₁ = k
    · subst h₁
      exact hclaims hnat k₂ hfile hne b mode mode' hc (hclaimsOf hne.symm hc')
    · by_cases h₂ : k₂ = k
      · subst h₂
        have := hclaims (hfile ▸ hnat) k₁ hfile.symm hne.symm b mode' mode hc' (hclaimsOf hne hc)
        exact ⟨this.2, this.1⟩
      · exact h.apart k₁ k₂ hnat hfile hne b mode mode' (hclaimsOf h₁ hc) (hclaimsOf h₂ hc')

/-! ### Calls of the gateway table -/

section Calls

variable {m : GatewayLockMgr} {file : FileKey} {owner : LockOwnerId} {range : LockRange} {exclusive : Bool}

theorem col_put_self (n : ByteMap) (file : FileKey) (owner : Bytes) (range : UInt64 → Bool) (mode : Option Bool) :
    ByteMap.col (LockMap.put n file owner range mode) (file, owner) =
      fun b => if range b then mode else n.col (file, owner) b :=
  funext fun b => LockMap.put_self n file owner range mode b

theorem col_put_elsewhere (n : ByteMap) {file : FileKey} {owner : Bytes} (range : UInt64 → Bool) (mode : Option Bool)
    {k : FileKey × Bytes} (hk : k ≠ (file, owner)) : ByteMap.col (LockMap.put n file owner range mode) k = n.col k :=
  funext fun b => LockMap.put_elsewhere n range mode b hk

theorem refines_put {n : ByteMap} {owner : Bytes} {bytes : Set UInt64} {test : UInt64 → Bool} {mode : Option Bool}
    (htest : ∀ b, test b = true ↔ b ∈ bytes) (h : m.Refines (n.assign file owner bytes mode)) :
    m.Refines (n.put file owner test mode) := by
  have heq : n.put file owner test mode = n.assign file owner bytes mode := by
    funext f b o
    by_cases hin : f = file ∧ o = owner ∧ b ∈ bytes
    · simp [LockMap.put, LockMap.assign, hin, htest]
    · simp [LockMap.put, LockMap.assign, hin, htest]
  rwa [heq]

theorem lock_granted (href : m.Refines g) (hne : m.AllNonEmpty) (hrange : range.offset < rangeEnd range)
    (h : (m.lock file owner range exclusive).2 = none) :
    (m.lock file owner range exclusive).1.Refines (g.put file owner.view range.has (some exclusive)) ∧
      ∀ k : FileKey × Bytes, k.1 = file → k ≠ (file, owner.view) → ∀ b mode, range.has b = true →
        g.col k b = some mode → exclusive = false ∧ mode = false := by
  have hfree := (GatewayLockMgr.lock_granted_iff href hne hrange file owner exclusive).mp h
  have hlock := GatewayLockMgr.refines_lock href hne hrange file owner exclusive
  rw [LockMap.lock, if_neg hfree] at hlock
  refine ⟨refines_put (fun b => LockRange.has_iff) hlock, fun k hfile hk b mode hb hmode => ?_⟩
  by_contra hcon
  refine hfree ⟨b, LockRange.has_iff.mp hb, k.2, mode, fun heq => hk ?_, hfile ▸ hmode, ?_⟩
  · rw [← hfile, Option.some.inj heq]
  · cases exclusive <;> cases mode <;> simp_all

theorem refines_release (href : m.Refines g) :
    (m.releaseOwner file owner).1.Refines (g.put file owner.view (fun _ => true) none) :=
  refines_put (by simp) (GatewayLockMgr.refines_releaseOwner href)

theorem rangeEnd_toRange {start stop : UInt64} (h : start < stop) : rangeEnd (toRange start stop) = stop := by
  unfold rangeEnd toRange
  grind

end Calls

/-! ### One step -/

theorem mem_erase_of_waiting (h : n ∈ pre ++ post) : n ∈ (pre ++ f :: post).erase f := by
  have hmiddle : (pre ++ f :: post).Perm (f :: (pre ++ post)) := List.perm_middle
  have hperm : ((pre ++ f :: post).erase f).Perm (pre ++ post) := by simpa using hmiddle.erase f
  exact hperm.mem_iff.mpr h

theorem alone_of_uncontended (hguard : Uncontended cfg s (pre ++ f :: post) f)
    (hk : f.enters s = some k) : k ∉ (pre ++ post).filterMap (NativeFrame.holds cfg) := by
  intro hin
  obtain ⟨n, hn, hholds⟩ := List.mem_filterMap.mp hin
  exact hguard.1 k hk n (mem_erase_of_waiting hn) hholds

theorem Agrees.held (h : Agrees cfg s g (pre ++ f :: post)) (hf : f.holds cfg = some k) :
    k ∉ (pre ++ post).filterMap (NativeFrame.holds cfg) ∧ ∀ k', f.holds cfg = some k' → k' = k :=
  ⟨Machine.ticket_not_waiting h.tickets hf, fun _ hk' => Option.some.inj (hk'.symm.trans hf)⟩

theorem Agrees.fewer (h : Agrees cfg s g (pre ++ f :: post))
    (hless : ∀ b mode, s'.Claims g' k b mode → s.Claims g k b mode) :
    cfg.nativeLocks k.1.fsid = true → ∀ k', k.1 = k'.1 → k ≠ k' → ∀ b mode mode', s'.Claims g' k b mode →
      s.Claims g k' b mode' → mode = false ∧ mode' = false :=
  fun hnat k' hfile hne b mode mode' hc => h.apart k k' hnat hfile hne b mode mode' (hless b mode hc)

theorem Agrees.handOn (h : Agrees cfg s g (pre ++ f :: post)) (hlocks : s'.shared.locks = s.shared.locks)
    (hnative : s'.native = s.native) (hgranted : s'.granted = s.granted)
    (hnext : ∀ n ∈ next, n.Regular cfg ∧ ∀ k, n.holds cfg = some k →
      f.holds cfg = some k ∧ ∀ table native granted, f.Stage table native granted → n.Stage table native granted)
    (hone : (next.filterMap (NativeFrame.holds cfg)).length ≤ 1)
    (hdone : next.filterMap (NativeFrame.holds cfg) = [] → ∀ k, f.holds cfg = some k → ∀ table native granted,
      f.Stage table native granted → table = granted ∧ native = granted) :
    Agrees cfg s' g (pre ++ (next ++ post)) := by
  cases hf : f.holds cfg with
  | none =>
    refine h.plain hf hlocks hnative hgranted fun n hn => ⟨(hnext n hn).1, ?_⟩
    rw [Option.eq_none_iff_forall_ne_some]
    intro k hk
    have := ((hnext n hn).2 k hk).1
    rw [hf] at this
    cases this
  | some k =>
    obtain ⟨halone, honly⟩ := h.held hf
    have hstage := h.staged f (by simp) k hf
    refine h.update k halone honly (hlocks ▸ h.refines) (hlocks ▸ h.nonEmpty) (fun _ _ => ?_) (fun n hn => ?_) ?_
      (h.fewer fun b mode hc => ?_)
    · rw [hnative, hgranted]
      exact ⟨rfl, rfl, rfl⟩
    · refine ⟨(hnext n hn).1, fun k' hk' => ?_⟩
      obtain ⟨hk, hpass⟩ := (hnext n hn).2 k' hk'
      rw [hnative, hgranted]
      exact ⟨honly k' hk, hpass _ _ _ hstage⟩
    · cases hlist : next.filterMap (NativeFrame.holds cfg) with
      | nil =>
        rw [hnative, hgranted]
        exact Or.inr ⟨rfl, fun _ => hdone hlist k hf _ _ _ hstage⟩
      | cons k' rest =>
        rw [hlist, List.length_cons] at hone
        obtain rfl : rest = [] := List.length_eq_zero_iff.mp (by omega)
        obtain ⟨n, hn, hk'⟩ := List.mem_filterMap.mp (hlist ▸ List.mem_cons_self ..)
        rw [honly k' ((hnext n hn).2 k' hk').1]
        exact Or.inl rfl
    · rwa [Claims, hgranted] at hc

theorem Agrees.unmirrored (h : Agrees cfg s g (pre ++ f :: post)) (k : FileKey × Bytes)
    (hnat : ¬cfg.nativeLocks k.1.fsid = true) (hrefines : s'.shared.locks.Refines g')
    (hnonEmpty : s'.shared.locks.AllNonEmpty)
    (hcols : ∀ k', k' ≠ k → g'.col k' = g.col k' ∧ s'.native.col k' = s.native.col k' ∧
      s'.granted.col k' = s.granted.col k')
    (hnext : ∀ n ∈ next, n.Regular cfg ∧ n.holds cfg = none) (hf : f.holds cfg = none) :
    Agrees cfg s' g' (pre ++ (next ++ post)) := by
  refine h.update k ?_ ?_ hrefines hnonEmpty hcols ?_ (Or.inr ⟨?_, fun hk => absurd hk hnat⟩) fun hk => absurd hk hnat
  · intro hin
    obtain ⟨n, -, hholds⟩ := List.mem_filterMap.mp hin
    exact hnat (holds_native hholds)
  · simp [hf]
  · exact fun n hn => ⟨(hnext n hn).1, by simp [(hnext n hn).2]⟩
  · exact List.filterMap_eq_nil_iff.mpr fun n hn => (hnext n hn).2

section Lock

variable {ctx : LockCtx} {before rest : List LockSeg} {attempt : Nat} {answer : Answer}

theorem Agrees.lockBefore (h : Agrees cfg s g (pre ++ NativeFrame.base (.lockBefore ctx) :: post))
    (hguard : Uncontended cfg s (pre ++ NativeFrame.base (.lockBefore ctx) :: post) (.base (.lockBefore ctx))) (input : Input) :
    Agrees cfg (s.exec cfg input (.base (.lockBefore ctx))).1 g
      (pre ++ ((s.exec cfg input (.base (.lockBefore ctx))).2 ++ post)) := by
  obtain ⟨hreg, hnat⟩ : _ ∧ _ := h.regular (.base (.lockBefore ctx)) (by simp)
  have halone := alone_of_uncontended hguard rfl
  have hidle := h.idle (ctx.args.file, ctx.lowner.view) hnat (by simpa [NativeFrame.holds] using halone)
  simp only [exec, Shared.exec, Shared.lockBefore, List.map_cons, List.map_nil]
  refine h.update (ctx.args.file, ctx.lowner.view) halone (by simp [NativeFrame.holds]) h.refines h.nonEmpty
    (fun _ _ => ⟨rfl, rfl, rfl⟩) ?_ (Or.inl (by simp [NativeFrame.holds, hnat])) (h.fewer fun _ _ => id)
  simp only [List.mem_singleton, forall_eq]
  refine ⟨hreg, fun k' hk' => ⟨(eq_of_holds hk').2.symm, ⟨fun seg hseg => ?_, fun mode b => ?_⟩, hidle.2, hidle.1⟩⟩
  · have hseg' := List.mem_filter.mp hseg
    exact ⟨h.nonEmpty _ seg hseg'.1, sameOwner_iff.mp hseg'.2⟩
  · rw [← hidle.1]
    refine Iff.trans ?_ (h.refines ctx.args.file ctx.lowner.view mode b)
    simp only [Holds, List.mem_filter, sameOwner_iff]
    constructor
    · rintro ⟨seg, ⟨hin, -⟩, hrest⟩
      exact ⟨seg, hin, hrest⟩
    · rintro ⟨seg, hin, hview, hrest⟩
      exact ⟨seg, ⟨hin, hview⟩, hview, hrest⟩

theorem Agrees.spares (h : Agrees cfg s g (pre ++ NativeFrame.base (.lockArbitrate ctx before attempt) :: post))
    (hguard : Uncontended cfg s (pre ++ NativeFrame.base (.lockArbitrate ctx before attempt) :: post)
      (.base (.lockArbitrate ctx before attempt)))
    (hgranted : (s.shared.locks.lock ctx.args.file ctx.lowner ctx.args.range ctx.args.exclusive).2 = none)
    (hnat : cfg.nativeLocks ctx.args.file.fsid = true) {k : FileKey × Bytes} (hfile : k.1 = ctx.args.file)
    (hk : k ≠ (ctx.args.file, ctx.lowner.view)) {b : UInt64} {mode : Bool} (hb : ctx.args.range.has b = true)
    (hc : s.Claims g k b mode) : ctx.args.exclusive = false ∧ mode = false := by
  have hreg : ctx.args.range.offset < rangeEnd ctx.args.range :=
    h.regular (.base (.lockArbitrate ctx before attempt)) (by simp)
  have hfree := (lock_granted h.refines h.nonEmpty hreg hgranted).2 k hfile hk b mode hb
  rcases hc with hc | hc
  · exact hfree hc
  · by_cases hheld : k ∈ (pre ++ post).filterMap (NativeFrame.holds cfg)
    · obtain ⟨n, hn, hholds⟩ := List.mem_filterMap.mp hheld
      rcases granted_cases hholds (h.staged n (Machine.mem_of_waiting hn) k hholds) hc with htable | ⟨hsegs, hsnap⟩
      · exact hfree htable
      · -- a segment of the snapshot with this byte would be in conflict with the request
        obtain ⟨seg, hseg, -, rfl, hmem⟩ := hsnap
        have hclear := hguard.2 n (mem_erase_of_waiting hn)
        simp only [NativeFrame.SparesSnapshot, hholds, Option.map_some, hfile, forall_const] at hclear
        have hover : seg.overlaps ctx.args.range.offset (rangeEnd ctx.args.range) = true :=
          (overlaps_iff_common_byte (hsegs seg hseg).1 hreg).mpr ⟨b, hmem, LockRange.has_iff.mp hb⟩
        have hother : sameOwner seg.owner ctx.lowner = false := by
          rw [← Bool.not_eq_true, sameOwner_iff, (hsegs seg hseg).2]
          exact fun heq => hk (by rw [← hfile, ← heq])
        simpa [GatewayLockMgr.conflicting, hover, hother] using hclear seg hseg
    · have hidle := h.idle k (hfile ▸ hnat) (fun hin => hheld ?_)
      · exact hfree (by rw [hidle.1]; exact hc)
      · obtain ⟨n, hn, hholds⟩ := List.mem_filterMap.mp hin
        refine List.mem_filterMap.mpr ⟨n, ?_, hholds⟩
        simp only [List.mem_append, List.mem_cons] at hn ⊢
        rcases hn with hn | rfl | hn
        · exact Or.inl hn
        · simp only [NativeFrame.holds, hnat, if_true, Option.some.injEq] at hholds
          exact absurd hholds.symm hk
        · exact Or.inr hn

theorem Agrees.lockArbitrate (h : Agrees cfg s g (pre ++ NativeFrame.base (.lockArbitrate ctx before attempt) :: post))
    (hguard : Uncontended cfg s (pre ++ NativeFrame.base (.lockArbitrate ctx before attempt) :: post)
      (.base (.lockArbitrate ctx before attempt))) (input : Input) :
    ∃ g', Agrees cfg (s.exec cfg input (.base (.lockArbitrate ctx before attempt))).1 g'
      (pre ++ ((s.exec cfg input (.base (.lockArbitrate ctx before attempt))).2 ++ post)) := by
  have hreg : ctx.args.range.offset < rangeEnd ctx.args.range :=
    h.regular (.base (.lockArbitrate ctx before attempt)) (by simp)
  have hnonEmpty := GatewayLockMgr.allNonEmpty_lock h.nonEmpty hreg ctx.args.file ctx.lowner ctx.args.exclusive
  simp only [exec, arbitrate, Shared.lockArbitrate]
  by_cases hnat : cfg.nativeLocks ctx.args.file.fsid = true
  · have hholds : (NativeFrame.base (.lockArbitrate ctx before attempt)).holds cfg =
        some (ctx.args.file, ctx.lowner.view) := by simp [NativeFrame.holds, hnat]
    obtain ⟨hsnap, hnative, htable⟩ := h.staged _ (by simp) _ hholds
    obtain ⟨halone, honly⟩ := h.held hholds
    cases hres : (s.shared.locks.lock ctx.args.file ctx.lowner ctx.args.range ctx.args.exclusive).2 with
    | some conflict =>
      have href : (s.shared.locks.lock ctx.args.file ctx.lowner ctx.args.range ctx.args.exclusive).1.Refines g := by
        rw [GatewayLockMgr.lock_refused (by simp [hres])]
        exact h.refines
      refine ⟨g, h.update (ctx.args.file, ctx.lowner.view) halone honly href hnonEmpty ?_ ?_
        (Or.inl (by simp [NativeFrame.holds, hnat])) (h.fewer ?_)⟩
      · simp [hnat]
      · simp only [List.map_cons, List.map_nil, List.mem_singleton, forall_eq]
        refine ⟨hreg, fun k' hk' => ⟨?_, ?_⟩⟩
        · exact (eq_of_holds hk').2.symm
        · simpa [NativeFrame.Stage, hnat] using ⟨hsnap, hnative, htable⟩
      · simp [Claims, hnat]
    | none =>
      obtain ⟨hrefines, hfree⟩ := lock_granted h.refines h.nonEmpty hreg hres
      refine ⟨_, h.update (ctx.args.file, ctx.lowner.view) halone honly hrefines hnonEmpty ?_ ?_
        (Or.inl (by simp [NativeFrame.holds, hnat])) ?_⟩
      · intro k' hk'
        simp [hnat, col_put_elsewhere _ _ _ hk']
      · simp only [hnat, if_true, List.map_cons, List.map_nil, List.mem_singleton, forall_eq]
        refine ⟨⟨hreg, hnat⟩, fun k' hk' => ⟨(eq_of_holds hk').2.symm, ?_⟩⟩
        simpa [NativeFrame.Stage, col_put_self, htable] using ⟨hsnap, hnative⟩
      · intro _ k' hfile hne b mode mode' hc hc'
        have hcases : ctx.args.range.has b = true ∧ ctx.args.exclusive = mode ∨
            s.Claims g (ctx.args.file, ctx.lowner.view) b mode := by
          rcases hc with hc | hc
          · rw [col_put_self] at hc
            by_cases hb : ctx.args.range.has b = true
            · exact Or.inl ⟨hb, by simpa [hb] using hc⟩
            · exact Or.inr (Or.inl (by simpa [hb] using hc))
          · exact Or.inr (Or.inr (by simpa [hnat] using hc))
        rcases hcases with ⟨hb, rfl⟩ | hold
        · exact h.spares hguard hres hnat hfile.symm hne.symm hb hc'
        · exact h.apart _ k' hnat hfile hne b mode mode' hold hc'
  · -- without a native lock manager there is nothing to keep in step
    obtain ⟨g', hrefines, hcols⟩ : ∃ g', (s.shared.locks.lock ctx.args.file ctx.lowner ctx.args.range
        ctx.args.exclusive).1.Refines g' ∧ ∀ k', k' ≠ (ctx.args.file, ctx.lowner.view) → g'.col k' = g.col k' := by
      cases hres : (s.shared.locks.lock ctx.args.file ctx.lowner ctx.args.range ctx.args.exclusive).2 with
      | some conflict =>
        refine ⟨g, ?_, fun _ _ => rfl⟩
        rw [GatewayLockMgr.lock_refused (by simp [hres])]
        exact h.refines
      | none => exact ⟨_, (lock_granted h.refines h.nonEmpty hreg hres).1, fun k' hk' => col_put_elsewhere _ _ _ hk'⟩
    refine ⟨g', h.unmirrored (ctx.args.file, ctx.lowner.view) hnat hrefines hnonEmpty ?_ ?_ (if_neg hnat)⟩
    · intro k' hk'
      refine ⟨hcols k' hk', rfl, ?_⟩
      dsimp only
      split
      · exact col_put_elsewhere _ _ _ hk'
      · rfl
    · split <;> simp [hnat, NativeFrame.holds, NativeFrame.Regular, Frame.Regular, hreg]

theorem Agrees.lockConflict {conflict : LockConflict}
    (h : Agrees cfg s g (pre ++ NativeFrame.base (.lockConflict ctx before attempt conflict) :: post)) (input : Input) :
    Agrees cfg (s.exec cfg input (.base (.lockConflict ctx before attempt conflict))).1 g
      (pre ++ ((s.exec cfg input (.base (.lockConflict ctx before attempt conflict))).2 ++ post)) := by
  have hreg : ctx.args.range.offset < rangeEnd ctx.args.range :=
    h.regular (.base (.lockConflict ctx before attempt conflict)) (by simp)
  have hdone : ∀ answer, Agrees cfg s g (pre ++ ([NativeFrame.base (.reply answer)] ++ post)) := fun answer =>
    h.handOn rfl rfl rfl (by simp [NativeFrame.Regular, Frame.Regular, NativeFrame.holds])
      (List.length_filterMap_le _ [_]) fun _ _ _ _ _ _ hstage => ⟨hstage.2.2, hstage.2.1⟩
  have hretry : ∀ first : List NativeFrame, (∀ n ∈ first, n.Regular cfg ∧ n.holds cfg = none) →
      Agrees cfg s g (pre ++ ((first ++ [NativeFrame.base (.lockArbitrate ctx before (attempt + 1))]) ++ post)) := by
    intro first hfirst
    refine h.handOn rfl rfl rfl (fun n hn => ?_) ?_ fun _ _ _ _ _ _ hstage => ⟨hstage.2.2, hstage.2.1⟩
    · rcases List.mem_append.mp hn with hn | hn
      · exact ⟨(hfirst n hn).1, by simp [(hfirst n hn).2]⟩
      · obtain rfl := List.mem_singleton.mp hn
        exact ⟨hreg, fun k hk => ⟨hk, fun _ _ _ => id⟩⟩
    · rw [List.filterMap_append, List.filterMap_eq_nil_iff.mpr fun n hn => (hfirst n hn).2]
      exact List.length_filterMap_le _ [_]
  simp only [exec, Shared.exec, Shared.lockConflict]
  split
  · exact hdone _
  · next holder _ =>
    split
    · refine hretry [.base (.expireClient (s.shared.clients holder.client).clientid .conflict)] ?_
      simp [NativeFrame.Regular, Frame.Regular, NativeFrame.holds]
    · split
      · exact hretry [] (by simp)
      · exact hdone _

theorem Agrees.lockPush (h : Agrees cfg s g (pre ++ NativeFrame.base (.lockPush ctx before) :: post)) (input : Input) :
    Agrees cfg (s.exec cfg input (.base (.lockPush ctx before))).1 g
      (pre ++ ((s.exec cfg input (.base (.lockPush ctx before))).2 ++ post)) := by
  obtain ⟨-, hnat⟩ : _ ∧ _ := h.regular (.base (.lockPush ctx before)) (by simp)
  have hholds : (NativeFrame.base (.lockPush ctx before)).holds cfg = some (ctx.args.file, ctx.lowner.view) := by
    simp [NativeFrame.holds, hnat]
  have hrefused : ∀ answer, Agrees cfg s g (pre ++ ([NativeFrame.restore ctx before answer] ++ post)) := by
    intro answer
    refine h.handOn rfl rfl rfl ?_ (List.length_filterMap_le _ [_]) (by simp [NativeFrame.holds, hnat])
    simp only [List.mem_singleton, forall_eq]
    exact ⟨hnat, fun k hk => ⟨hk, fun _ _ _ => id⟩⟩
  simp only [exec, push]
  split
  · obtain ⟨-, hnative, htable⟩ := h.staged _ (by simp) _ hholds
    obtain ⟨halone, honly⟩ := h.held hholds
    have hidle : g.col (ctx.args.file, ctx.lowner.view) =
        ByteMap.col (s.granted.put ctx.args.file ctx.lowner.view ctx.args.range.has (some ctx.args.exclusive))
          (ctx.args.file, ctx.lowner.view) := by rw [htable, col_put_self]
    refine h.update (ctx.args.file, ctx.lowner.view) halone honly h.refines h.nonEmpty ?_ ?_ (Or.inr ⟨rfl, fun _ => ?_⟩)
      (h.fewer ?_)
    · intro k' hk'
      simp [col_put_elsewhere _ _ _ hk']
    · simp [NativeFrame.Regular, Frame.Regular, NativeFrame.holds]
    · exact ⟨hidle, by simp only [col_put_self, hnative]⟩
    · intro b mode hc
      refine Or.inl (hc.elim id fun hc => ?_)
      rw [hidle]
      exact hc
  · cases houtcome : input.native with
    | granted => contradiction
    | failed e => exact hrefused _
    | refused conflict => cases conflict <;> exact hrefused _

theorem Agrees.restore (h : Agrees cfg s g (pre ++ NativeFrame.restore ctx before answer :: post)) (input : Input) :
    ∃ g', Agrees cfg (s.exec cfg input (.restore ctx before answer)).1 g'
      (pre ++ ((s.exec cfg input (.restore ctx before answer)).2 ++ post)) := by
  have hnat : cfg.nativeLocks ctx.args.file.fsid = true := h.regular (.restore ctx before answer) (by simp)
  have hholds : (NativeFrame.restore ctx before answer).holds cfg = some (ctx.args.file, ctx.lowner.view) := by
    simp [NativeFrame.holds, hnat]
  obtain ⟨hsnap, hnative, -⟩ := h.staged _ (by simp) _ hholds
  obtain ⟨halone, honly⟩ := h.held hholds
  refine ⟨_, h.update (ctx.args.file, ctx.lowner.view) halone honly (refines_release h.refines)
    (GatewayLockMgr.allNonEmpty_releaseOwner h.nonEmpty) ?_ ?_ (Or.inl (by simp [exec, NativeFrame.holds, hnat]))
    (h.fewer ?_)⟩
  · intro k' hk'
    exact ⟨col_put_elsewhere _ _ _ hk', rfl, rfl⟩
  · simp only [exec, List.mem_singleton, forall_eq]
    refine ⟨hnat, fun k' hk' => ⟨(eq_of_holds hk').2.symm, ⟨hsnap.segs, fun mode b hb => ?_, fun mode b hb => ?_⟩, hnative⟩⟩
    · rw [col_put_self] at hb
      exact (hsnap.covers mode b).mp (hb.resolve_left (by simp))
    · exact Or.inr ((hsnap.covers mode b).mpr hb)
  · intro b mode hc
    rw [Claims, col_put_self] at hc
    exact Or.inr (hc.resolve_left (by simp))

theorem Agrees.relockNext {seg : LockSeg} (h : Agrees cfg s g (pre ++ NativeFrame.relock ctx (seg :: rest) answer :: post))
    (input : Input) :
    ∃ g', Agrees cfg (s.exec cfg input (.relock ctx (seg :: rest) answer)).1 g'
      (pre ++ ((s.exec cfg input (.relock ctx (seg :: rest) answer)).2 ++ post)) := by
  have hnat : cfg.nativeLocks ctx.args.file.fsid = true := h.regular (.relock ctx (seg :: rest) answer) (by simp)
  have hholds : (NativeFrame.relock ctx (seg :: rest) answer).holds cfg = some (ctx.args.file, ctx.lowner.view) := by
    simp [NativeFrame.holds, hnat]
  obtain ⟨hrestoring, hnative⟩ := h.staged _ (by simp) _ hholds
  obtain ⟨halone, honly⟩ := h.held hholds
  obtain ⟨hseg, howner⟩ := hrestoring.segs seg (by simp)
  have hend := rangeEnd_toRange hseg
  have hrange : (toRange seg.start seg.stop).offset < rangeEnd (toRange seg.start seg.stop) := hend.symm ▸ hseg
  have hhas : ∀ b, (toRange seg.start seg.stop).has b = true ↔ seg.Mem b := by
    intro b
    rw [LockRange.has_iff, LockRange.mem_bytes, hend]
    rfl
  have hres : (s.shared.locks.lock ctx.args.file ctx.lowner (toRange seg.start seg.stop) seg.exclusive).2 = none := by
    rw [GatewayLockMgr.lock_granted_iff h.refines h.nonEmpty hrange]
    rintro ⟨b, hb, o, mode, ho, hmode, hcon⟩
    have hclaim : s.Claims g (ctx.args.file, ctx.lowner.view) b seg.exclusive :=
      Or.inr (hrestoring.sound _ b (Or.inr ⟨seg, by simp, howner, rfl, (hhas b).mp (LockRange.has_iff.mpr hb)⟩))
    have hne : (ctx.args.file, ctx.lowner.view) ≠ (ctx.args.file, o) := by
      simp only [ne_eq, Prod.mk.injEq, true_and]
      rintro rfl
      exact ho rfl
    have := h.apart (ctx.args.file, ctx.lowner.view) (ctx.args.file, o) hnat rfl hne b _ mode hclaim (Or.inl hmode)
    simp [this] at hcon
  obtain ⟨hrefines, -⟩ := lock_granted h.refines h.nonEmpty hrange hres
  have hnext := hrestoring.lockNext hhas
  refine ⟨_, h.update (ctx.args.file, ctx.lowner.view) halone honly hrefines
    (GatewayLockMgr.allNonEmpty_lock h.nonEmpty hrange _ _ _) ?_ ?_ (Or.inl (by simp [exec, NativeFrame.holds, hnat]))
    (h.fewer ?_)⟩
  · intro k' hk'
    exact ⟨col_put_elsewhere _ _ _ hk', rfl, rfl⟩
  · simp only [exec, List.mem_singleton, forall_eq]
    refine ⟨hnat, fun k' hk' => ⟨(eq_of_holds hk').2.symm, ?_, hnative⟩⟩
    rw [col_put_self]
    exact hnext
  · intro b mode hc
    rw [Claims, col_put_self] at hc
    exact Or.inr (hc.elim (fun hb => hnext.sound mode b (Or.inl hb)) id)

theorem Agrees.relockDone (h : Agrees cfg s g (pre ++ NativeFrame.relock ctx [] answer :: post)) (input : Input) :
    Agrees cfg (s.exec cfg input (.relock ctx [] answer)).1 g
      (pre ++ ((s.exec cfg input (.relock ctx [] answer)).2 ++ post)) := by
  refine h.handOn rfl rfl rfl (by simp [exec, NativeFrame.Regular, Frame.Regular, NativeFrame.holds])
    (List.length_filterMap_le _ [_]) fun _ _ _ table native granted hstage => ⟨funext fun b => Option.ext fun mode => ?_, hstage.2⟩
  have hnone : ¬Holds [] ctx.lowner.view mode b := by simp [Holds]
  exact ⟨fun hb => hstage.1.sound mode b (Or.inl hb), fun hb => (hstage.1.complete mode b hb).resolve_right hnone⟩

end Lock

/-! ### Releases -/

section Release

variable {r : StateRef} {other : StateOther} {range : LockRange} {handover : Bool} {file : FileKey} {owner : LockOwnerId}

theorem Agrees.clear (h : Agrees cfg s g (pre ++ f :: post)) (hf : f.holds cfg = none)
    (halone : (file, owner.view) ∉ (pre ++ post).filterMap (NativeFrame.holds cfg)) {test : UInt64 → Bool}
    (hrefines : s'.shared.locks.Refines (g.put file owner.view test none)) (hnonEmpty : s'.shared.locks.AllNonEmpty)
    (hnative : s'.native = s.native) (hgranted : s'.granted = s.granted.put file owner.view test none)
    {n : NativeFrame} (hn : cfg.nativeLocks file.fsid = true → n.Regular cfg ∧ n.holds cfg = some (file, owner.view))
    (hstage : ∀ native : Coverage,
      n.Stage (fun b => if test b then none else native b) native (fun b => if test b then none else native b))
    (hnext : ∀ n ∈ next, n.Regular cfg ∧ n.holds cfg = none) :
    Agrees cfg s' (g.put file owner.view test none)
      (pre ++ (((if cfg.nativeLocks file.fsid then [n] else []) ++ next) ++ post)) := by
  have hcols : ∀ k', k' ≠ (file, owner.view) → ByteMap.col (g.put file owner.view test none) k' = g.col k' ∧
      s'.native.col k' = s.native.col k' ∧ s'.granted.col k' = s.granted.col k' := by
    intro k' hk'
    rw [hnative, hgranted, col_put_elsewhere _ _ _ hk', col_put_elsewhere _ _ _ hk']
    exact ⟨rfl, rfl, rfl⟩
  by_cases hnat : cfg.nativeLocks file.fsid = true
  · obtain ⟨hreg, hholds⟩ := hn hnat
    have hidle := h.idle (file, owner.view) hnat (by
      rw [List.filterMap_append, List.filterMap_cons_none hf, ← List.filterMap_append]
      exact halone)
    rw [if_pos hnat]
    refine h.update (file, owner.view) halone (by simp [hf]) hrefines hnonEmpty hcols ?_ (Or.inl ?_) (h.fewer ?_)
    · simp only [List.singleton_append, List.mem_cons, forall_eq_or_imp]
      refine ⟨⟨hreg, fun k' hk' => ⟨Option.some.inj (hk'.symm.trans hholds), ?_⟩⟩, fun n hn => ?_⟩
      · rw [hnative, hgranted, col_put_self, col_put_self, hidle.1, ← hidle.2]
        exact hstage _
      · exact ⟨(hnext n hn).1, by simp [(hnext n hn).2]⟩
    · rw [List.singleton_append, List.filterMap_cons_some hholds,
        List.filterMap_eq_nil_iff.mpr fun n hn => (hnext n hn).2]
    · intro b mode hc
      rw [Claims, hgranted, col_put_self, col_put_self] at hc
      by_cases hb : test b = true
      · simp [hb] at hc
      · simpa [hb, Claims] using hc
  · rw [if_neg hnat, List.nil_append]
    exact h.unmirrored (file, owner.view) hnat hrefines hnonEmpty hcols hnext hf

theorem Agrees.follow (h : Agrees cfg s g (pre ++ f :: post)) (hf : f.holds cfg = some (file, owner.view))
    (hshared : s'.shared = s.shared) (hgranted : s'.granted = s.granted) {test : UInt64 → Bool}
    (hnative : s'.native = s.native.put file owner.view test none)
    (hstage : ∀ table native granted, f.Stage table native granted →
      table = granted ∧ granted = fun b => if test b then none else native b) :
    Agrees cfg s' g (pre ++ ([] ++ post)) := by
  obtain ⟨halone, honly⟩ := h.held hf
  obtain ⟨htable, hgone⟩ := hstage _ _ _ (h.staged f (by simp) _ hf)
  refine h.update (file, owner.view) halone honly (hshared ▸ h.refines) (hshared ▸ h.nonEmpty) ?_ (by simp)
    (Or.inr ⟨rfl, fun _ => ?_⟩) (h.fewer ?_)
  · intro k' hk'
    rw [hnative, hgranted, col_put_elsewhere _ _ _ hk']
    exact ⟨rfl, rfl, rfl⟩
  · rw [hnative, hgranted, col_put_self]
    exact ⟨htable, hgone.symm⟩
  · simp [Claims, hgranted]

theorem Agrees.lockuRange (h : Agrees cfg s g (pre ++ NativeFrame.base (.lockuRange r other range) :: post))
    (hguard : Uncontended cfg s (pre ++ NativeFrame.base (.lockuRange r other range) :: post) (.base (.lockuRange r other range)))
    (input : Input) :
    ∃ g', Agrees cfg (s.exec cfg input (.base (.lockuRange r other range))).1 g'
      (pre ++ ((s.exec cfg input (.base (.lockuRange r other range))).2 ++ post)) := by
  refine ⟨g.put (s.shared.states r).key (s.shared.states r).lowner.view range.has none, ?_⟩
  simp only [exec, unlockRange]
  refine h.clear rfl (alone_of_uncontended hguard rfl) ?_ ?_ ?_ ?_ ?_ ?_ ?_
  · exact refines_put (fun _ => LockRange.has_iff) (GatewayLockMgr.refines_unlock h.refines)
  · exact GatewayLockMgr.allNonEmpty_unlock h.nonEmpty
  · rfl
  · rfl
  · exact fun hnat => ⟨hnat, if_pos hnat⟩
  · exact fun _ => ⟨rfl, rfl⟩
  · simp [NativeFrame.Regular, Frame.Regular, NativeFrame.holds]

theorem Agrees.drop (h : Agrees cfg s g (pre ++ NativeFrame.drop r handover :: post))
    (hguard : Uncontended cfg s (pre ++ NativeFrame.drop r handover :: post) (.drop r handover)) (input : Input) :
    ∃ g', Agrees cfg (s.exec cfg input (.drop r handover)).1 g'
      (pre ++ ((s.exec cfg input (.drop r handover)).2 ++ post)) := by
  have hhand : handover = false := h.regular (.drop r handover) (by simp)
  have hnext : (s.exec cfg input (.drop r handover)).2 =
      (if cfg.nativeLocks (s.shared.states r).key.fsid then [.release (s.shared.states r).key (s.shared.states r).lowner]
        else []) ++ [] := by
    subst hhand
    simp only [exec, dropLocks, Bool.not_false, and_true, List.append_nil]
    rfl
  refine ⟨g.put (s.shared.states r).key (s.shared.states r).lowner.view (fun _ => true) none, ?_⟩
  rw [hnext]
  refine h.clear rfl (alone_of_uncontended hguard rfl) (refines_release h.refines) ?_ ?_ ?_ ?_ ?_ ?_
  · exact GatewayLockMgr.allNonEmpty_releaseOwner h.nonEmpty
  · rfl
  · rfl
  · exact fun hnat => ⟨hnat, if_pos hnat⟩
  · exact fun _ => ⟨rfl, by simp⟩
  · simp

theorem Agrees.unlock (h : Agrees cfg s g (pre ++ NativeFrame.unlock file owner range :: post)) (input : Input) :
    Agrees cfg (s.exec cfg input (.unlock file owner range)).1 g
      (pre ++ ((s.exec cfg input (.unlock file owner range)).2 ++ post)) := by
  have hnat : cfg.nativeLocks file.fsid = true := h.regular (.unlock file owner range) (by simp)
  exact h.follow (if_pos hnat) rfl rfl rfl fun _ _ _ => id

theorem Agrees.release (h : Agrees cfg s g (pre ++ NativeFrame.release file owner :: post)) (input : Input) :
    Agrees cfg (s.exec cfg input (.release file owner)).1 g
      (pre ++ ((s.exec cfg input (.release file owner)).2 ++ post)) := by
  have hnat : cfg.nativeLocks file.fsid = true := h.regular (.release file owner) (by simp)
  exact h.follow (if_pos hnat) rfl rfl rfl fun _ _ _ => by simp [NativeFrame.Stage]

end Release

/-! ### Every step and every run -/

theorem Agrees.base {frame : Frame} (h : Agrees cfg s g (pre ++ NativeFrame.base frame :: post)) (hplain : frame.Unmirrored cfg)
    (hexec : ∀ input, s.exec cfg input (.base frame) =
      ({ s with shared := (s.shared.exec cfg input frame).1 }, (s.shared.exec cfg input frame).2.map .base))
    (hholds : (NativeFrame.base frame).holds cfg = none) (input : Input) :
    Agrees cfg (s.exec cfg input (.base frame)).1 g (pre ++ ((s.exec cfg input (.base frame)).2 ++ post)) := by
  rw [hexec]
  refine h.plain hholds (Change.locks_eq (s.shared.exec_change cfg input frame) hplain) rfl rfl fun n hn => ?_
  obtain ⟨f, hf, rfl⟩ := List.mem_map.mp hn
  exact (s.shared.exec_flow cfg input frame f hf).plain hplain

theorem Agrees.lockCaps {ctx : LockCtx} (h : Agrees cfg s g (pre ++ NativeFrame.base (.lockCaps ctx) :: post)) (input : Input) :
    Agrees cfg (s.exec cfg input (.base (.lockCaps ctx))).1 g
      (pre ++ ((s.exec cfg input (.base (.lockCaps ctx))).2 ++ post)) := by
  have hreg : ctx.args.range.offset < rangeEnd ctx.args.range := h.regular (.base (.lockCaps ctx)) (by simp)
  refine h.plain rfl rfl rfl rfl ?_
  simp only [exec, Shared.exec, Shared.lockCaps]
  split
  · simp [NativeFrame.Regular, Frame.Regular, NativeFrame.holds]
  · split
    · simp [NativeFrame.Regular, Frame.Regular, NativeFrame.holds]
    · split
      · next hnat => simp [NativeFrame.Regular, Frame.Regular, NativeFrame.holds, hreg, hnat]
      · next hnat => simp [NativeFrame.Regular, Frame.Regular, NativeFrame.holds, hreg, hnat]

theorem Agrees.unlinkFile {r : StateRef} {fromClient handover : Bool}
    (h : Agrees cfg s g (pre ++ NativeFrame.base (.unlinkFile r fromClient handover) :: post)) (input : Input) :
    Agrees cfg (s.exec cfg input (.base (.unlinkFile r fromClient handover))).1 g
      (pre ++ ((s.exec cfg input (.base (.unlinkFile r fromClient handover))).2 ++ post)) := by
  have hhand : handover = false := h.regular (.base (.unlinkFile r fromClient handover)) (by simp)
  have hlocks : (s.shared.dropFromFile r).locks = s.shared.locks :=
    (congrArg Tables.locks (Shared.tables_dropFromFile s.shared r)).trans (Tables.locks_dropFromFile ..)
  refine h.plain rfl hlocks rfl rfl fun n hn => ?_
  obtain ⟨f, hf, rfl⟩ := List.mem_map.mp hn
  subst hhand
  cases (s.shared.exec_flow cfg input (.unlinkFile r fromClient false) f hf : Follows ..) with
  | unlinkLocks | unlinkDependent | unlinkDeleg | untrackState | reply => exact ⟨by first | exact rfl | exact trivial, rfl⟩
  | lockFirst hor | trackUndo hor | trackPersist hor => rcases hor with hor | hor <;> cases hor

theorem Agrees.step (h : Agrees cfg s g (pre ++ f :: post)) (hguard : Uncontended cfg s (pre ++ f :: post) f)
    (input : Input) : ∃ g', Agrees cfg (s.exec cfg input f).1 g' (pre ++ ((s.exec cfg input f).2 ++ post)) := by
  have hreg := h.regular f (by simp)
  cases f with
  | base f =>
    cases f with
    | lockCaps => exact ⟨g, h.lockCaps input⟩
    | lockBefore => exact ⟨g, h.lockBefore hguard input⟩
    | lockArbitrate => exact h.lockArbitrate hguard input
    | lockConflict => exact ⟨g, h.lockConflict input⟩
    | lockPush => exact ⟨g, h.lockPush input⟩
    | lockuRange => exact h.lockuRange hguard input
    | unlinkFile => exact ⟨g, h.unlinkFile input⟩
    | _ => exact ⟨g, h.base hreg (fun _ => rfl) rfl input⟩
  | drop => exact h.drop hguard input
  | restore => exact h.restore input
  | relock ctx before answer =>
    cases before with
    | nil => exact ⟨g, h.relockDone input⟩
    | cons => exact h.relockNext input
  | unlock => exact ⟨g, h.unlock input⟩
  | release => exact ⟨g, h.release input⟩

theorem Agrees.spawn {fs : List NativeFrame} (h : Agrees cfg s g fs) (hf : f.Arrives cfg) :
    Agrees cfg s g (fs ++ [f]) := by
  have harrives : f.Regular cfg ∧ f.holds cfg = none := by
    cases f with
    | base f => cases f <;> first | exact ⟨hf.2, rfl⟩ | exact hf.1.elim
    | _ => exact hf.elim
  have hsame : (fs ++ [f]).filterMap (NativeFrame.holds cfg) = fs.filterMap (NativeFrame.holds cfg) := by
    simp [List.filterMap_append, List.filterMap_cons_none harrives.2]
  refine { h with
    regular := fun n hn => ?_
    tickets := hsame ▸ h.tickets
    staged := fun n hn k hk => ?_
    idle := hsame ▸ h.idle }
  · rcases List.mem_append.mp hn with hn | hn
    · exact h.regular n hn
    · exact List.mem_singleton.mp hn ▸ harrives.1
  · rcases List.mem_append.mp hn with hn | hn
    · exact h.staged n hn k hk
    · obtain rfl := List.mem_singleton.mp hn
      rw [harrives.2] at hk
      cases hk

/-- The two views are in step, whatever map the gateway table's coverage is. -/
def InStep (cfg : Config) (s : Mirrored) (fs : List NativeFrame) : Prop := ∃ g, Agrees cfg s g fs

theorem InStep.boot (cfg : Config) : InStep cfg gatewayBoot.state gatewayBoot.frames := ⟨LockMap.empty, Agrees.boot⟩

theorem InStep.spawn {fs : List NativeFrame} (h : InStep cfg s fs) (hf : f.Arrives cfg) : InStep cfg s (fs ++ [f]) := by
  obtain ⟨g, hagrees⟩ := h
  exact ⟨g, hagrees.spawn hf⟩

theorem InStep.step (h : InStep cfg s (pre ++ f :: post)) (hguard : Uncontended cfg s (pre ++ f :: post) f)
    (input : Input) : InStep cfg (s.exec cfg input f).1 (pre ++ ((s.exec cfg input f).2 ++ post)) := by
  obtain ⟨g, hagrees⟩ := h
  exact hagrees.step hguard input

end Mirrored

/-! ### What the requests see -/

/-- The file and owner of a LOCK that the gateway table has granted and the storage not yet, or whose roll-back is not
over. -/
def NativeFrame.unsettled : NativeFrame → Option (FileKey × Bytes)
  | base (.lockPush ctx _) | restore ctx _ _ | relock ctx _ _ => some (ctx.args.file, ctx.lowner.view)
  | _ => none

/-- Unless the owner itself is in the middle of a LOCK, its coverage in the gateway table is what it was granted. -/
theorem NativeFrame.table_of_settled {cfg : Config} {n : NativeFrame} {k : FileKey × Bytes}
    {table native granted : Coverage} (hholds : n.holds cfg = some k) (hstage : n.Stage table native granted)
    (hsettled : n.unsettled ≠ some k) : table = granted := by
  cases n with
  | base f =>
    cases f with
    | lockArbitrate | lockConflict => exact hstage.2.2
    | lockPush => exact absurd (congrArg some (Mirrored.eq_of_holds hholds).2) hsettled
    | _ => cases hholds
  | drop => cases hholds
  | restore | relock => exact absurd (congrArg some (Mirrored.eq_of_holds hholds).2) hsettled
  | unlock | release => exact hstage.1

/-- LOCK is not granted: a lock that another owner has stands in its way, or the request is in error. -/
def Answer.refuses : Answer → Bool
  | status v => v != .ok
  | denied _ => true
  | _ => false

/-- The file of a LOCK whose next section may be its last. -/
def NativeFrame.lockOn (s : Mirrored) : NativeFrame → Option FileKey
  | base (.lock args) | base (.lockGrace _ args _ _) | base (.lockState _ args _) | base (.lockCheck _ args _ _) =>
    some args.file
  | base (.lockCaps ctx) | base (.lockConflict ctx _ _ _) | base (.lockRefused ctx _) => some ctx.args.file
  | base (.lockTrack _ l) => some (s.shared.states l).key
  | _ => none

def NativeFrame.answersError : NativeFrame → Bool
  | base (.reply answer) => answer.refuses
  | _ => false

/-- The file of a LOCK that the step answers with an error. -/
def NativeFrame.refusal (cfg : Config) (s : Mirrored) (input : Input) (f : NativeFrame) : Option FileKey :=
  if (s.exec cfg input f).2.any NativeFrame.answersError then f.lockOn s else none

/-- The file of a LOCK that the next step of a task answers with an error. -/
def refusalAt (cfg : Config) (c : Machine.Config Mirrored NativeFrame) (i : Nat) (input : Input) : Option FileKey :=
  (c.tasks[i]?.bind List.head?).bind (NativeFrame.refusal cfg c.state input)

/-- No LOCK is answered with an error while another one on the file waits for the storage or is rolled back. -/
abbrev refusalsSettled (cfg : Config) : Machine.Rules Mirrored NativeFrame Input where
  spawn _ _ f := f.Arrives cfg
  step s fs input f := Uncontended cfg s fs f ∧
    ∀ file ∈ f.refusal cfg s input, ∀ g ∈ fs.erase f, g.unsettled.map Prod.fst ≠ some file

theorem NativeFrame.settled_of_lockOn {cfg : Config} {s : Mirrored} {f g : NativeFrame} {file : FileKey}
    (input : Input) (hf : f.lockOn s = some file) (hg : g ∈ (s.exec cfg input f).2) : g.unsettled = none := by
  cases f with
  | base f =>
    have hexec : (s.exec cfg input (.base f)).2 = (s.shared.exec cfg input f).2.map .base := by
      cases f with
      | lock | lockGrace | lockState | lockCheck | lockCaps | lockConflict | lockRefused | lockTrack => rfl
      | _ => cases hf
    rw [hexec] at hg
    obtain ⟨h, hmem, rfl⟩ := List.mem_map.mp hg
    cases h with
    | lockPush ctx before =>
      -- Only the arbitration goes on to the storage.
      cases (s.shared.exec_flow cfg input f _ hmem : Follows ..)
      cases hf
    | _ => rfl
  | _ => cases hf

section Requests

variable {cfg : Config} {es : List (Machine.Event NativeFrame Input)} {file : FileKey} {owner : Bytes}

/-- What an owner was granted and has not given back is in the gateway table, except while a LOCK of that owner on that
file has not come to its end. -/
theorem Mirrored.InStep.holds_granted {s : Mirrored} {fs : List NativeFrame} (h : Mirrored.InStep cfg s fs)
    (hnat : cfg.nativeLocks file.fsid = true) (hsettled : ∀ f ∈ fs, f.unsettled ≠ some (file, owner)) {b : UInt64}
    {mode : Bool} (hgranted : s.granted file b owner = some mode) :
    Holds (s.shared.locks.segments file) owner mode b := by
  obtain ⟨g, hagrees⟩ := h
  have htable : g.col (file, owner) = s.granted.col (file, owner) := by
    by_cases hheld : (file, owner) ∈ fs.filterMap (NativeFrame.holds cfg)
    · obtain ⟨n, hn, hholds⟩ := List.mem_filterMap.mp hheld
      exact NativeFrame.table_of_settled hholds (hagrees.staged n hn _ hholds) (hsettled n hn)
    · exact (hagrees.idle _ hnat hheld).1
  exact (hagrees.refines file owner mode b).mpr ((congrFun htable b).trans hgranted)

/-- When a step of such a run answers a LOCK with an error, every byte of its file that an owner was granted, before or
since the LOCK arrived, and has not given back is in the gateway table in the mode granted. -/
theorem refused_lock_loses_nothing {i : Nat} {input : Input}
    (hrun : (refusalsSettled cfg).Permits (gateway cfg) gatewayBoot (es ++ [.step i input]))
    (hnat : cfg.nativeLocks file.fsid = true)
    (hrefused : refusalAt cfg ((gateway cfg).run gatewayBoot es) i input = some file) :
    ∀ owner b mode, ((gateway cfg).run gatewayBoot (es ++ [.step i input])).state.granted file b owner = some mode →
      Holds (((gateway cfg).run gatewayBoot (es ++ [.step i input])).state.shared.locks.segments file) owner mode b := by
  have hinv : Mirrored.InStep cfg ((gateway cfg).run gatewayBoot (es ++ [.step i input])).state
      ((gateway cfg).run gatewayBoot (es ++ [.step i input])).frames :=
    Machine.run_invariant (fun _ _ _ hinv hf => hinv.spawn hf)
      (fun _ _ _ _ input hinv hrule => hinv.step hrule.1 input) (Mirrored.InStep.boot cfg) hrun
  obtain ⟨f, hhead, hrefusal⟩ := Option.bind_eq_some_iff.mp hrefused
  obtain ⟨stack, htask, hstack⟩ := Option.bind_eq_some_iff.mp hhead
  obtain ⟨rest, rfl⟩ := List.head?_eq_some_iff.mp hstack
  have hrule := (Machine.Rules.permits_step hrun htask).2.2 file hrefusal
  obtain ⟨pre, post, hframes, -, hnext⟩ := Machine.apply_step (m := gateway cfg) htask input
  have hfile : f.lockOn ((gateway cfg).run gatewayBoot es).state = some file := by
    unfold NativeFrame.refusal at hrefusal
    exact (Option.ite_none_right_eq_some.mp hrefusal).2
  intro owner b mode hgranted
  refine hinv.holds_granted hnat (fun g hg hunsettled => ?_) hgranted
  rw [Machine.run_append, Machine.run_cons, Machine.run_nil, hnext] at hg
  rcases Machine.new_or_waiting hg with hnew | hwaiting
  · rw [NativeFrame.settled_of_lockOn input hfile hnew] at hunsettled
    cases hunsettled
  · refine hrule g ?_ (by rw [hunsettled]; rfl)
    rw [hframes]
    exact Mirrored.mem_erase_of_waiting hwaiting

/-- In every state of an uncontended run, the storage has for an owner and file what the gateway table has, unless an
operation of that owner on that file is in progress. -/
theorem native_coverage_eq_table (h : (uncontended cfg).Permits (gateway cfg) gatewayBoot es)
    (hnat : cfg.nativeLocks file.fsid = true)
    (hidle : ∀ f ∈ ((gateway cfg).run gatewayBoot es).frames, f.holds cfg ≠ some (file, owner)) (b : UInt64)
    (mode : Bool) :
    ((gateway cfg).run gatewayBoot es).state.native file b owner = some mode ↔
      Holds (((gateway cfg).run gatewayBoot es).state.shared.locks.segments file) owner mode b := by
  obtain ⟨g, hagrees⟩ : Mirrored.InStep cfg ((gateway cfg).run gatewayBoot es).state
      ((gateway cfg).run gatewayBoot es).frames :=
    Machine.run_invariant (fun _ _ _ hinv hf => hinv.spawn hf)
      (fun _ _ _ _ input hinv hguard => hinv.step hguard input) (Mirrored.InStep.boot cfg) h
  have hfree : (file, owner) ∉ (((gateway cfg).run gatewayBoot es).frames).filterMap (NativeFrame.holds cfg) := by
    intro hin
    obtain ⟨n, hn, hholds⟩ := List.mem_filterMap.mp hin
    exact hidle n hn hholds
  obtain ⟨htable, hnative⟩ := hagrees.idle _ hnat hfree
  rw [hagrees.refines file owner mode b]
  exact Eq.congr_left (congrFun (hnative.trans htable.symm) b)

end Requests

/-! ### Locks of one file -/

/-- One owner keeps what it had before its LOCK was refused, the other what it was granted meanwhile. -/
theorem refused_lock_loses_nothing_either :
    let segments := ((gateway nativeConfig).run gatewayBoot (refusing ++ [.step 5 {}])).state.shared.locks.segments lockedFile
    Holds segments lockOwner true 5 ∧ Holds segments (makeLowner 0x100000001 [109]).view true 45 := by
  have hrun : (refusalsSettled nativeConfig).Permits (gateway nativeConfig) gatewayBoot (refusing ++ [.step 5 {}]) := by
    decide +kernel
  have hrefused : refusalAt nativeConfig ((gateway nativeConfig).run gatewayBoot refusing) 5 {} = some lockedFile := by
    decide +kernel
  have hkept := refused_lock_loses_nothing hrun rfl hrefused
  exact ⟨hkept _ 5 true (by decide +kernel), hkept _ 45 true (by decide +kernel)⟩

theorem native_coverage_eq_table_first :
    ((gateway nativeConfig).run gatewayBoot refusedLock).state.native lockedFile 5 lockOwner = some true ↔
      Holds (((gateway nativeConfig).run gatewayBoot refusedLock).state.shared.locks.segments lockedFile) lockOwner
        true 5 := by
  have hrun : (uncontended nativeConfig).Permits (gateway nativeConfig) gatewayBoot refusedLock := by decide +kernel
  have hidle : ∀ f ∈ ((gateway nativeConfig).run gatewayBoot refusedLock).frames,
      f.holds nativeConfig ≠ some (lockedFile, lockOwner) := by decide +kernel
  exact native_coverage_eq_table hrun rfl hidle 5 true

/-- Two LOCKs of one owner in parallel: when the first is granted in the gateway table the second runs to its end and
is answered, then the storage refuses the first. -/
def parallelLocks : List (Machine.Event NativeFrame Input) :=
  opened ++ mirroredRequest 4 (lockWithOpen [108] ⟨0, 10⟩) 8 ++ mirroredRequest 5 (lockWithOpen [108] ⟨20, 10⟩) 14

/-- The roll-back drops the range the parallel LOCK has been answered for. -/
theorem refused_lock_drops_parallel_grant :
    ((gateway nativeConfig).run gatewayBoot parallelLocks).tasks[5]? =
        some [NativeFrame.base (.reply (.stateid ⟨1, ⟨1, 2, 2⟩⟩))] ∧
      ((gateway nativeConfig).run gatewayBoot (parallelLocks ++
          Machine.Event.step 5 ({} : Input) :: .step 4 { native := .refused none } :: List.replicate 3 (Machine.Event.step 4 ({} : Input)))).tasks[4]? =
        some [NativeFrame.base (.reply (.denied { range := ⟨0, 10⟩, exclusive := true }))] ∧
      ((gateway nativeConfig).run gatewayBoot (parallelLocks ++
          Machine.Event.step 5 ({} : Input) :: .step 4 { native := .refused none } :: List.replicate 3 (Machine.Event.step 4 ({} : Input)))).state.shared.locks.segments
        lockedFile = [] := by
  decide +kernel

/-- LOCK of a range the owner has, interrupted before it reaches the storage by a LOCKU of that range. -/
def unlockedMeanwhile : List (Machine.Event NativeFrame Input) :=
  opened ++ mirroredRequest 4 (lockWithOpen [108] ⟨0, 10⟩) 15 ++
    mirroredRequest 5 (.lock { clientid := 0x100000001, file := lockedFile, exclusive := true, range := ⟨0, 10⟩,
                               newOwner := false, lockStateid := ⟨1, ⟨1, 2, 2⟩⟩ }) 8 ++
    mirroredRequest 6 (.locku ⟨1, ⟨1, 2, 2⟩⟩ 0x100000001 ⟨0, 10⟩ none) 7 ++ List.replicate 5 (Machine.Event.step 5 ({} : Input))

/-- Everything is answered and the storage has a lock the gateway table does not know. -/
theorem native_lock_outlives_unlock :
    ((gateway nativeConfig).run gatewayBoot unlockedMeanwhile).frames = [] ∧
      ((gateway nativeConfig).run gatewayBoot unlockedMeanwhile).state.shared.locks.segments lockedFile = [] ∧
      ((gateway nativeConfig).run gatewayBoot unlockedMeanwhile).state.native lockedFile 5 lockOwner = some true := by
  decide +kernel

end LightNfs
