import LightNfs.Lock.Refinement

/-!
# The canonical form of a segment list

`lock_mgr.hpp` calls a file's locks a sorted interval list. `coalesce` sorts, and on a list whose
segments of one owner share no byte it leaves each owner's segments of one mode with a gap between
them. `carve` keeps all of that but the order: it puts the part behind the carved range where the whole
segment stood, in front of segments that may begin before it, and `unlock` does not sort.
-/

namespace LightNfs

namespace LockSeg

def Disjoint (s t : LockSeg) : Prop := s.stop ≤ t.start ∨ t.stop ≤ s.start

def Touch (s t : LockSeg) : Prop := s.stop = t.start ∨ t.stop = s.start

/-- What canonical form asks of two segments: those of one owner are disjoint, and do not touch when they
are of one mode. -/
def Apart (s t : LockSeg) : Prop :=
  s.owner.view = t.owner.view → s.Disjoint t ∧ (s.exclusive = t.exclusive → ¬s.Touch t)

theorem Apart.symm {s t : LockSeg} (h : s.Apart t) : t.Apart s := by
  intro howner
  obtain ⟨hdisjoint, htouch⟩ := h howner.symm
  exact ⟨hdisjoint.symm, fun hmode hto => htouch hmode.symm hto.symm⟩

end LockSeg

def SortedByStart (segs : List LockSeg) : Prop := segs.Pairwise fun s t => s.start ≤ t.start

instance : DecidablePred SortedByStart := fun segs => inferInstanceAs (Decidable (segs.Pairwise _))

structure Canonical (segs : List LockSeg) : Prop where
  sorted : SortedByStart segs
  nonEmpty : NonEmpty segs
  apart : segs.Pairwise LockSeg.Apart

theorem canonical_nil : Canonical [] where
  sorted := List.Pairwise.nil
  nonEmpty := by simp [NonEmpty]
  apart := List.Pairwise.nil

theorem Canonical.filter {segs : List LockSeg} (h : Canonical segs) (keep : LockSeg → Bool) :
    Canonical (segs.filter keep) where
  sorted := h.sorted.filter keep
  nonEmpty := fun s hs => h.nonEmpty s (List.mem_of_mem_filter hs)
  apart := h.apart.filter keep

/-! ### What `carve` leaves -/

/-- What `carve` puts in the place of one segment. -/
def LockSeg.carved (s : LockSeg) (owner : LockOwnerId) (start stop : UInt64) : List LockSeg :=
  if !sameOwner s.owner owner || !s.overlaps start stop then [s]
  else (if s.start < start then [{ s with stop := start }] else []) ++
    (if s.stop > stop then [{ s with start := stop }] else [])

theorem carve_eq (segs : List LockSeg) (owner : LockOwnerId) (start stop : UInt64) :
    carve segs owner start stop = segs.flatMap fun s => s.carved owner start stop := rfl

section

variable {owner : LockOwnerId} {start stop : UInt64}
variable {s p : LockSeg} {segs : List LockSeg}

/-- The segment as it was when the range misses it, the part before the range, or the part behind it. -/
theorem LockSeg.mem_carved (h : p ∈ s.carved owner start stop) :
    (p = s ∧ (s.owner.view = owner.view → s.stop ≤ start ∨ stop ≤ s.start)) ∨
      (p = { s with stop := start } ∧ s.start < start ∧ s.start < stop ∧ start < s.stop) ∨
        (p = { s with start := stop } ∧ s.owner.view = owner.view ∧ stop < s.stop ∧ s.start < stop) := by
  rw [carved] at h
  by_cases hmissed : (!sameOwner s.owner owner || !s.overlaps start stop) = true
  · rw [if_pos hmissed, List.mem_singleton] at h
    refine Or.inl ⟨h, fun howner => ?_⟩
    rw [sameOwner_iff.mpr howner] at hmissed
    simp only [Bool.not_true, Bool.false_or, Bool.not_eq_true', overlaps, Bool.and_eq_false_iff,
      decide_eq_false_iff_not] at hmissed
    lia
  · rw [if_neg hmissed, List.mem_append] at h
    simp only [Bool.or_eq_true, Bool.not_eq_true', not_or, Bool.not_eq_false, overlaps, Bool.and_eq_true,
      decide_eq_true_eq] at hmissed
    obtain ⟨hsame, hbefore, hbehind⟩ := hmissed
    right
    rcases h with h | h
    · by_cases hleft : s.start < start
      · rw [if_pos hleft, List.mem_singleton] at h
        exact Or.inl ⟨h, hleft, hbefore, hbehind⟩
      · rw [if_neg hleft] at h
        cases h
    · by_cases hright : s.stop > stop
      · rw [if_pos hright, List.mem_singleton] at h
        exact Or.inr ⟨h, sameOwner_iff.mp hsame, hright, hbefore⟩
      · rw [if_neg hright] at h
        cases h

/-- A piece keeps owner and mode, lies inside its segment and has a byte if that had one. -/
theorem LockSeg.carved_inside (h : p ∈ s.carved owner start stop) :
    p.owner = s.owner ∧ p.exclusive = s.exclusive ∧ s.start ≤ p.start ∧ p.stop ≤ s.stop ∧
      (s.start < s.stop → p.start < p.stop) := by
  rcases mem_carved h with ⟨rfl, -⟩ | ⟨rfl, hleft, -, hbehind⟩ | ⟨rfl, -, hright, hbefore⟩
  · exact ⟨rfl, rfl, UInt64.le_refl _, UInt64.le_refl _, id⟩
  · exact ⟨rfl, rfl, UInt64.le_refl _, UInt64.le_of_lt hbehind, fun _ => hleft⟩
  · exact ⟨rfl, rfl, UInt64.le_of_lt hbefore, UInt64.le_refl _, fun _ => hright⟩

theorem LockSeg.carved_misses (h : p ∈ s.carved owner start stop)
    (howner : p.owner.view = owner.view) : p.stop ≤ start ∨ stop ≤ p.start := by
  rcases mem_carved h with ⟨rfl, hmissed⟩ | ⟨rfl, -⟩ | ⟨rfl, -⟩
  · exact hmissed howner
  · exact Or.inl (UInt64.le_refl _)
  · exact Or.inr (UInt64.le_refl _)

/-- The two parts of a segment cut in the middle, in this order. -/
theorem LockSeg.pairwise_carved {R : LockSeg → LockSeg → Prop} (s : LockSeg)
    (hcut : s.start < stop → R { s with stop := start } { s with start := stop }) :
    (s.carved owner start stop).Pairwise R := by
  rw [carved]
  by_cases hmissed : (!sameOwner s.owner owner || !s.overlaps start stop) = true
  · rw [if_pos hmissed]
    exact List.pairwise_singleton R s
  · rw [if_neg hmissed]
    simp only [Bool.or_eq_true, Bool.not_eq_true', not_or, Bool.not_eq_false, overlaps, Bool.and_eq_true,
      decide_eq_true_eq] at hmissed
    have hcut := hcut hmissed.2.1
    by_cases hleft : s.start < start <;> by_cases hright : s.stop > stop <;> simp [hleft, hright, hcut]

theorem LockSeg.Apart.pieces {t q : LockSeg} (h : s.Apart t) (hs : s.start < s.stop) (ht : t.start < t.stop)
    (hp : p ∈ s.carved owner start stop) (hq : q ∈ t.carved owner start stop) : p.Apart q := by
  obtain ⟨hpowner, hpmode, hpstart, hpstop, hpne⟩ := carved_inside hp
  obtain ⟨hqowner, hqmode, hqstart, hqstop, hqne⟩ := carved_inside hq
  have hpne := hpne hs
  have hqne := hqne ht
  intro howner
  rw [hpowner, hqowner] at howner
  obtain ⟨hdisjoint, htouch⟩ := h howner
  rw [hpmode, hqmode]
  unfold Disjoint at hdisjoint ⊢
  refine ⟨by lia, fun hmode => ?_⟩
  have htouch := htouch hmode
  unfold Touch at htouch ⊢
  lia

theorem apart_carve (hne : NonEmpty segs) (h : segs.Pairwise LockSeg.Apart)
    (hrange : start < stop) : (carve segs owner start stop).Pairwise LockSeg.Apart := by
  rw [carve_eq, List.pairwise_flatMap]
  constructor
  · intro s hs
    have hs := hne s hs
    refine s.pairwise_carved fun _ _ => ⟨Or.inl (UInt64.le_of_lt hrange), fun _ htouch => ?_⟩
    have htouch : start = stop ∨ s.stop = s.start := htouch
    lia
  · refine h.imp_of_mem ?_
    intro s t hs ht hapart p hp q hq
    exact hapart.pieces (hne s hs) (hne t ht) hp hq

/-- The segments behind one that the range cuts off at its end begin no earlier than the part it leaves
there. -/
def KeepsOrder (segs : List LockSeg) (owner : LockOwnerId) (stop : UInt64) : Prop :=
  segs.Pairwise fun s t => s.owner.view = owner.view → s.start < stop → stop < s.stop → stop ≤ t.start

instance (segs : List LockSeg) (owner : LockOwnerId) (stop : UInt64) : Decidable (KeepsOrder segs owner stop) :=
  inferInstanceAs (Decidable (segs.Pairwise _))

theorem sorted_carve (h : SortedByStart segs) (hkeeps : KeepsOrder segs owner stop) :
    SortedByStart (carve segs owner start stop) := by
  rw [SortedByStart, carve_eq, List.pairwise_flatMap]
  constructor
  · intro s _
    exact s.pairwise_carved fun hbefore => UInt64.le_of_lt hbefore
  · refine (h.and hkeeps).imp ?_
    rintro s t ⟨hle, hkeep⟩ p hp q hq
    have hqstart := (LockSeg.carved_inside hq).2.2.1
    rcases LockSeg.mem_carved hp with ⟨rfl, -⟩ | ⟨rfl, -⟩ | ⟨rfl, howner, hright, hbefore⟩
    · exact UInt64.le_trans hle hqstart
    · exact UInt64.le_trans hle hqstart
    · exact UInt64.le_trans (hkeep howner hbefore hright) hqstart

theorem canonical_carve (h : Canonical segs) (hrange : start < stop)
    (hkeeps : KeepsOrder segs owner stop) : Canonical (carve segs owner start stop) where
  sorted := sorted_carve h.sorted hkeeps
  nonEmpty := nonEmpty_carve h.nonEmpty owner start stop
  apart := apart_carve h.nonEmpty h.apart hrange

end

/-! ### What `coalesce` makes -/

theorem sorted_sortByStart (segs : List LockSeg) : SortedByStart (sortByStart segs) := by
  have : Std.Total fun a b : LockSeg => a.start ≤ b.start := ⟨fun a b => UInt64.le_total a.start b.start⟩
  have : IsTrans LockSeg fun a b => a.start ≤ b.start := ⟨fun _ _ _ => UInt64.le_trans⟩
  exact List.pairwise_insertionSort _ segs

theorem fuseInto_eq_none {s : LockSeg} {out : List LockSeg} (h : fuseInto s out = none) :
    ∀ t ∈ out, t.fusible s = false := by
  induction out with
  | nil => exact List.forall_mem_nil _
  | cons t rest ih =>
    rw [fuseInto] at h
    by_cases hfusible : t.fusible s = true
    · rw [if_pos hfusible] at h
      cases h
    · rw [if_neg hfusible, Option.map_eq_none_iff] at h
      exact List.forall_mem_cons.mpr ⟨Bool.of_not_eq_true hfusible, ih h⟩

theorem fuseInto_eq_some {s : LockSeg} {out out' : List LockSeg} (h : fuseInto s out = some out') :
    ∃ later t earlier, out = later ++ t :: earlier ∧ out' = later ++ t.fuse s :: earlier ∧ t.fusible s = true := by
  induction out generalizing out' with
  | nil => cases h
  | cons t rest ih =>
    rw [fuseInto] at h
    by_cases hfusible : t.fusible s = true
    · rw [if_pos hfusible] at h
      exact ⟨[], t, rest, rfl, (Option.some.inj h).symm, hfusible⟩
    · rw [if_neg hfusible] at h
      obtain ⟨rest', hrest, rfl⟩ := Option.map_eq_some_iff.mp h
      obtain ⟨later, u, earlier, rfl, rfl, hu⟩ := ih hrest
      exact ⟨t :: later, u, earlier, rfl, rfl, hu⟩

/-- Of one owner, the first ends before the second begins, or where it begins. -/
def LockSeg.Before (s t : LockSeg) : Prop := s.owner.view = t.owner.view → s.stop ≤ t.start

/-- Two segments of which the earlier does not fuse with the later. -/
theorem LockSeg.Before.apart {t s : LockSeg} (h : t.Before s) (ht : t.start < t.stop) (hs : s.start < s.stop)
    (hfusible : t.fusible s = false) : s.Apart t := by
  intro howner
  have hstop := h howner.symm
  refine ⟨Or.inr hstop, fun hmode htouch => ?_⟩
  have hgap : t.stop ≠ s.start := by
    intro heq
    have hfuses : t.fusible s = true := by
      simp only [fusible, sameOwner_iff.mpr howner.symm, hmode, beq_self_eq_true, Bool.true_and, Bool.and_eq_true,
        decide_eq_true_eq]
      lia
    exact Bool.false_ne_true (hfusible.symm.trans hfuses)
  unfold Touch at htouch
  lia

/-- The segment that takes the place of `t` once `s`, which begins where `t` ends, has been fused into it. -/
theorem LockSeg.Before.fuse {t s : LockSeg} (h : t.Before s) (ht : t.start < t.stop) (hs : s.start < s.stop)
    (hfusible : t.fusible s = true) :
    t.owner.view = s.owner.view ∧ t.exclusive = s.exclusive ∧ t.stop = s.start ∧ t.fuse s = { t with stop := s.stop } := by
  simp only [fusible, Bool.and_eq_true, beq_iff_eq, decide_eq_true_eq] at hfusible
  obtain ⟨⟨⟨hsame, hmode⟩, hreach⟩, -⟩ := hfusible
  have howner := sameOwner_iff.mp hsame
  have hstop := h howner
  have hjoin : t.stop = s.start := by lia
  refine ⟨howner, hmode, hjoin, ?_⟩
  rw [LockSeg.fuse, if_neg (by lia), if_pos (by lia)]

/-- The state of `coalesce` with `out` done and `rest` to come: all of `out` lies before `rest`. -/
structure Coalescing (out rest : List LockSeg) : Prop where
  apart : out.Pairwise LockSeg.Apart
  nonEmpty : NonEmpty (out ++ rest)
  ahead : ∀ t ∈ out, ∀ s ∈ rest, t.Before s
  order : rest.Pairwise LockSeg.Before

namespace Coalescing

variable {out rest : List LockSeg} {s : LockSeg}

theorem push (h : Coalescing out (s :: rest)) (hnone : fuseInto s out = none) : Coalescing (s :: out) rest := by
  have hs : s.start < s.stop := h.nonEmpty s (by simp)
  refine ⟨List.pairwise_cons.mpr ⟨fun t ht => ?_, h.apart⟩, fun t ht => ?_, ?_, (List.pairwise_cons.mp h.order).2⟩
  · have hbefore := h.ahead t ht s (List.mem_cons_self ..)
    exact hbefore.apart (h.nonEmpty t (List.mem_append_left _ ht)) hs (fuseInto_eq_none hnone t ht)
  · refine h.nonEmpty t ?_
    simp only [List.cons_append, List.mem_cons, List.mem_append] at ht ⊢
    tauto
  · intro t ht r hr
    rcases List.mem_cons.mp ht with rfl | ht
    · exact (List.pairwise_cons.mp h.order).1 r hr
    · exact h.ahead t ht r (List.mem_cons_of_mem s hr)

theorem fuse {later earlier : List LockSeg} {t : LockSeg} (h : Coalescing (later ++ t :: earlier) (s :: rest))
    (hfusible : t.fusible s = true) : Coalescing (later ++ t.fuse s :: earlier) rest := by
  have ht := h.nonEmpty t (by simp)
  have hs := h.nonEmpty s (by simp)
  obtain ⟨howner, hmode, hjoin, hfuse⟩ := (h.ahead t (by simp) s (by simp)).fuse ht hs hfusible
  -- whatever keeps apart from `t` and lies before `s` keeps apart from both together
  have hgrow : ∀ u ∈ later ++ earlier, t.Apart u → LockSeg.Apart { t with stop := s.stop } u := by
    intro u hu hapart hview
    have huout : u ∈ later ++ t :: earlier := by
      simp only [List.mem_append, List.mem_cons] at hu ⊢
      tauto
    have hune := h.nonEmpty u (List.mem_append_left _ huout)
    have hbefore : u.stop ≤ s.start := h.ahead u huout s (List.mem_cons_self ..) (hview.symm.trans howner)
    obtain ⟨hdisjoint, htouch⟩ := hapart hview
    unfold LockSeg.Disjoint at hdisjoint
    have hleft : u.stop ≤ t.start := by lia
    refine ⟨Or.inr hleft, fun hm hto => ?_⟩
    have htouch := htouch hm
    unfold LockSeg.Touch at htouch
    have hto : s.stop = u.start ∨ u.stop = t.start := hto
    lia
  have happart := List.pairwise_append.mp h.apart
  obtain ⟨hlater, hrest, hcross⟩ := happart
  obtain ⟨htfirst, hearlier⟩ := List.pairwise_cons.mp hrest
  rw [hfuse]
  refine ⟨List.pairwise_append.mpr ⟨hlater, List.pairwise_cons.mpr ⟨fun u hu => ?_, hearlier⟩, ?_⟩, ?_, ?_,
    (List.pairwise_cons.mp h.order).2⟩
  · exact hgrow u (List.mem_append_right _ hu) (htfirst u hu)
  · intro u hu v hv
    rcases List.mem_cons.mp hv with rfl | hv
    · exact (hgrow u (List.mem_append_left _ hu) (hcross u hu t (List.mem_cons_self ..)).symm).symm
    · exact hcross u hu v (List.mem_cons_of_mem t hv)
  · intro u hu
    by_cases hut : u = { t with stop := s.stop }
    · subst hut
      show t.start < s.stop
      lia
    · refine h.nonEmpty u ?_
      simp only [List.append_assoc, List.cons_append, List.mem_append, List.mem_cons] at hu ⊢
      tauto
  · intro u hu r hr
    by_cases hut : u = { t with stop := s.stop }
    · subst hut
      intro hview
      exact (List.pairwise_cons.mp h.order).1 r hr (howner.symm.trans hview)
    · refine h.ahead u ?_ r (List.mem_cons_of_mem s hr)
      simp only [List.mem_append, List.mem_cons] at hu ⊢
      tauto

theorem step (h : Coalescing out (s :: rest)) : Coalescing (coalesceStep out s) rest := by
  rw [coalesceStep]
  cases hfuse : fuseInto s out with
  | none => exact h.push hfuse
  | some out' =>
    obtain ⟨later, t, earlier, rfl, rfl, hfusible⟩ := fuseInto_eq_some hfuse
    exact h.fuse hfusible

theorem run (h : Coalescing out rest) : Coalescing (rest.foldl coalesceStep out) [] := by
  induction rest generalizing out with
  | nil => exact h
  | cons s rest ih => exact ih h.step

end Coalescing

/-- Segments of one owner that share no byte come out of `coalesce` in canonical form. -/
theorem canonical_coalesce {segs : List LockSeg} (hne : NonEmpty segs)
    (hdisjoint : segs.Pairwise fun s t => s.owner.view = t.owner.view → s.Disjoint t) : Canonical (coalesce segs) := by
  have hperm : (sortByStart segs).Perm segs := List.perm_insertionSort _ segs
  have hsortedne : NonEmpty (sortByStart segs) := fun s hs => hne s (hperm.mem_iff.mp hs)
  have hsorteddisjoint : (sortByStart segs).Pairwise fun s t => s.owner.view = t.owner.view → s.Disjoint t :=
    (hperm.pairwise_iff fun h howner => (h howner.symm).symm).mpr hdisjoint
  have horder : (sortByStart segs).Pairwise LockSeg.Before := by
    refine ((sorted_sortByStart segs).and hsorteddisjoint).imp_of_mem ?_
    rintro s t - ht ⟨hle, hdis⟩ howner
    have htne := hsortedne t ht
    have hdis := hdis howner
    unfold LockSeg.Disjoint at hdis
    lia
  have hstart : Coalescing [] (sortByStart segs) :=
    ⟨List.Pairwise.nil, hsortedne, fun t ht => absurd ht List.not_mem_nil, horder⟩
  have hresult : (coalesce segs).Perm ((sortByStart segs).foldl coalesceStep []) :=
    (List.perm_insertionSort _ _).trans (List.reverse_perm _)
  exact ⟨sorted_sortByStart _, nonEmpty_coalesce hne, (hresult.pairwise_iff LockSeg.Apart.symm).mpr hstart.run.apart⟩

namespace GatewayLockMgr

variable {m : GatewayLockMgr}

theorem canonical_lock {file : FileKey} {owner : LockOwnerId} {range : LockRange} (exclusive : Bool)
    (h : Canonical (m.segments file)) (hrange : range.offset < rangeEnd range) :
    Canonical (coalesce (carve (m.segments file) owner range.offset (rangeEnd range) ++
      [⟨owner, range.offset, rangeEnd range, exclusive⟩])) := by
  apply canonical_coalesce
  · intro s hs
    rcases List.mem_append.mp hs with hs | hs
    · exact nonEmpty_carve h.nonEmpty owner range.offset (rangeEnd range) s hs
    · exact List.mem_singleton.mp hs ▸ hrange
  · refine List.pairwise_append.mpr ⟨?_, List.pairwise_singleton _ _, fun p hp q hq howner => ?_⟩
    · exact (apart_carve h.nonEmpty h.apart hrange).imp fun hapart howner => (hapart howner).1
    · obtain rfl := List.mem_singleton.mp hq
      obtain ⟨s, -, hps⟩ := List.mem_flatMap.mp hp
      exact LockSeg.carved_misses hps howner

/-! ### The gauges -/

/-- The gauges agree with the table, in which no file stays without segments. -/
structure Counted (m : GatewayLockMgr) : Prop where
  total : m.total = m.files.total List.length
  filesLocked : m.filesLocked = m.files.size
  occupied : ∀ file, m.files.find file ≠ some []

/-- The two branches of the gauge are one subtraction. -/
theorem account_eq (file : FileKey) (segs : List LockSeg) {before : Nat} (h : before ≤ m.total) :
    m.account file segs before =
      let stored := { m with files := m.files.put file segs, total := m.total + segs.length - before }
      if segs.length = 0 then stored.eraseFile file else stored := by
  have hgauge : (if segs.length > before then m.total + (segs.length - before)
      else if before > segs.length then m.total - (before - segs.length) else m.total) =
        m.total + segs.length - before := by
    split_ifs <;> omega
  simp only [account, hgauge]

theorem counted_account {file : FileKey} (segs segs' : List LockSeg)
    (htotal : m.total = m.files.total List.length) (hfiles : m.filesLocked = m.files.size)
    (hothers : ∀ other ≠ file, m.files.find other ≠ some []) (hfind : m.files.find file = some segs) :
    (m.account file segs' segs.length).Counted := by
  have hbefore := m.files.total_eq List.length file
  have hone := m.files.total_eq (fun _ => 1) file
  have hput := m.files.total_put List.length file segs'
  have hputOne := m.files.total_put (fun _ => 1) file segs'
  rw [hfind, Option.map_some, Option.getD_some] at hbefore hone
  rw [Table.size_eq_total] at hfiles
  rw [account_eq file segs' (by omega)]
  by_cases hnone : segs'.length = 0
  · -- the last segment went: the file leaves the table
    have hremoved := (m.files.put file segs').total_eq List.length file
    have hremovedOne := (m.files.put file segs').total_eq (fun _ => 1) file
    rw [Table.find_put, if_pos rfl, Option.map_some, Option.getD_some] at hremoved hremovedOne
    rw [if_pos hnone]
    refine ⟨?_, ?_, fun other hother => ?_⟩
    · show m.total + segs'.length - segs.length = ((m.files.put file segs').remove file).total List.length
      omega
    · show m.filesLocked - 1 = ((m.files.put file segs').remove file).size
      rw [Table.size_eq_total]
      omega
    · have hother : ((m.files.put file segs').remove file).find other = some [] := hother
      by_cases hsame : other = file
      · rw [Table.find_remove, if_pos hsame] at hother
        cases hother
      · rw [Table.find_remove, if_neg hsame, Table.find_put, if_neg hsame] at hother
        exact hothers other hsame hother
  · rw [if_neg hnone]
    refine ⟨?_, ?_, fun other hother => ?_⟩
    · show m.total + segs'.length - segs.length = (m.files.put file segs').total List.length
      omega
    · show m.filesLocked = (m.files.put file segs').size
      rw [Table.size_eq_total]
      omega
    · have hother : (m.files.put file segs').find other = some [] := hother
      by_cases hsame : other = file
      · rw [Table.find_put, if_pos hsame] at hother
        exact hnone (List.length_eq_zero_iff.mpr (Option.some.inj hother))
      · rw [Table.find_put, if_neg hsame] at hother
        exact hothers other hsame hother

theorem lock_granted_eq {file : FileKey} {owner : LockOwnerId} {range : LockRange} {exclusive : Bool}
    (h : (m.lock file owner range exclusive).2 = none) :
    (m.lock file owner range exclusive).1 = (m.tryEmplace file).account file
      (coalesce (carve (m.segments file) owner range.offset (rangeEnd range) ++
        [⟨owner, range.offset, rangeEnd range, exclusive⟩])) (m.segments file).length := by
  simp only [lock, segments_tryEmplace] at h ⊢
  cases hconflict : (m.segments file).find? (conflicting (some owner) range.offset (rangeEnd range) exclusive) with
  | some seg =>
    rw [hconflict] at h
    cases h
  | none => rfl

theorem Counted.lock (h : m.Counted) (file : FileKey) (owner : LockOwnerId) (range : LockRange) (exclusive : Bool) :
    (m.lock file owner range exclusive).1.Counted := by
  cases hanswer : (m.lock file owner range exclusive).2 with
  | some conflict =>
    rw [lock_refused (by rw [hanswer]; rfl)]
    exact h
  | none =>
    rw [lock_granted_eq hanswer]
    cases hfind : m.files.find file with
    | some segs =>
      have hemplace : m.tryEmplace file = m := by rw [tryEmplace, hfind]
      have hsegs : m.segments file = segs := by rw [segments, hfind, Option.getD_some]
      rw [hemplace, hsegs]
      exact counted_account segs _ h.total h.filesLocked (fun other _ => h.occupied other) hfind
    | none =>
      -- the new entry is counted at once, and is the only one that may be without segments
      have hemplace : m.tryEmplace file =
          { m with files := m.files.put file [], filesLocked := m.filesLocked + 1 } := by rw [tryEmplace, hfind]
      have hsegs : m.segments file = [] := by rw [segments, hfind, Option.getD_none]
      have hlengths := m.files.total_eq List.length file
      have hentries := m.files.total_eq (fun _ => 1) file
      rw [hfind, Option.map_none, Option.getD_none] at hlengths hentries
      have hfiles := h.filesLocked
      rw [Table.size_eq_total] at hfiles
      rw [hemplace, hsegs]
      refine counted_account [] _ ?_ ?_ ?_ ?_
      · show m.total = (m.files.put file []).total List.length
        rw [Table.total_put, List.length_nil, h.total]
        omega
      · show m.filesLocked + 1 = (m.files.put file []).size
        rw [Table.size_eq_total, Table.total_put]
        omega
      · intro other hother
        show (m.files.put file []).find other ≠ some []
        rw [Table.find_put, if_neg hother]
        exact h.occupied other
      · show (m.files.put file []).find file = some []
        rw [Table.find_put, if_pos rfl]

theorem Counted.call (h : m.Counted) (c : Call) : (m.call c).Counted := by
  cases c with
  | lock file owner range exclusive => exact h.lock file owner range exclusive
  | unlock file owner range =>
    show (m.unlock file owner range).Counted
    cases hfind : m.files.find file with
    | none =>
      rw [unlock, hfind]
      exact h
    | some segs =>
      rw [unlock, hfind]
      exact counted_account segs _ h.total h.filesLocked (fun other _ => h.occupied other) hfind
  | test file owner range exclusive => exact h
  | releaseOwner file owner =>
    show (m.releaseOwner file owner).1.Counted
    cases hfind : m.files.find file with
    | none =>
      rw [releaseOwner, hfind]
      exact h
    | some segs =>
      rw [releaseOwner, hfind]
      exact counted_account segs _ h.total h.filesLocked (fun other _ => h.occupied other) hfind

/-! ### Whole runs -/

/-- The call names a range with a byte in it, and an unlock leaves no part of a segment in front of one
that begins earlier. -/
def Call.Keeps (m : GatewayLockMgr) : Call → Prop
  | lock _ _ range _ => range.offset < rangeEnd range
  | unlock file owner range =>
    range.offset < rangeEnd range ∧ KeepsOrder (m.segments file) owner (rangeEnd range)
  | test .. | releaseOwner .. => True

instance (m : GatewayLockMgr) : DecidablePred (Call.Keeps m)
  | .lock _ _ range _ => inferInstanceAs (Decidable (range.offset < rangeEnd range))
  | .unlock file owner range =>
    inferInstanceAs (Decidable (_ ∧ KeepsOrder (m.segments file) owner (rangeEnd range)))
  | .test .. | .releaseOwner .. => inferInstanceAs (Decidable True)

/-- Every call keeps, in the state it is made in. -/
def AllKeep : GatewayLockMgr → List Call → Prop
  | _, [] => True
  | m, c :: calls => c.Keeps m ∧ AllKeep (m.call c) calls

instance : ∀ (m : GatewayLockMgr) (calls : List Call), Decidable (AllKeep m calls)
  | _, [] => inferInstanceAs (Decidable True)
  | m, c :: calls =>
    have := instDecidableAllKeep (m.call c) calls
    inferInstanceAs (Decidable (c.Keeps m ∧ AllKeep (m.call c) calls))

/-- All that the table promises about itself. -/
structure WellKept (m : GatewayLockMgr) : Prop where
  canonical : ∀ file, Canonical (m.segments file)
  counted : m.Counted

theorem wellKept_empty : empty.WellKept where
  canonical := fun _ => canonical_nil
  counted := ⟨rfl, rfl, fun _ h => by cases h⟩

theorem WellKept.call (h : m.WellKept) {c : Call} (hkeeps : c.Keeps m) : (m.call c).WellKept := by
  refine ⟨fun file' => ?_, h.counted.call c⟩
  cases c with
  | lock file owner range exclusive =>
    show Canonical ((m.lock file owner range exclusive).1.segments file')
    cases hanswer : (m.lock file owner range exclusive).2 with
    | some conflict =>
      rw [lock_refused (by rw [hanswer]; rfl)]
      exact h.canonical file'
    | none =>
      rw [segments_lock_granted hanswer]
      by_cases hfile : file' = file
      · rw [if_pos hfile]
        exact canonical_lock exclusive (h.canonical file) hkeeps
      · rw [if_neg hfile]
        exact h.canonical file'
  | unlock file owner range =>
    show Canonical ((m.unlock file owner range).segments file')
    rw [segments_unlock]
    by_cases hfile : file' = file
    · rw [if_pos hfile]
      exact canonical_carve (h.canonical file) hkeeps.1 hkeeps.2
    · rw [if_neg hfile]
      exact h.canonical file'
  | test file owner range exclusive => exact h.canonical file'
  | releaseOwner file owner =>
    show Canonical ((m.releaseOwner file owner).1.segments file')
    rw [segments_releaseOwner]
    by_cases hfile : file' = file
    · rw [if_pos hfile]
      exact (h.canonical file).filter _
    · rw [if_neg hfile]
      exact h.canonical file'

theorem WellKept.run (h : m.WellKept) {calls : List Call} (hkeep : AllKeep m calls) : (calls.foldl GatewayLockMgr.call m).WellKept := by
  induction calls generalizing m with
  | nil => exact h
  | cons c calls ih => exact ih (h.call hkeep.1) hkeep.2

/-- In every run whose locks and unlocks name ranges with bytes in them and whose unlocks leave no part of
a segment in front of one that begins earlier, every list is canonical and the gauges are right. -/
theorem lock_lists_stay_canonical (calls : List Call) (hkeep : AllKeep empty calls) : (run calls).WellKept :=
  wellKept_empty.run hkeep

/-- Two shared locks; the first owner then gives up the front of its range, up to where the other's lock
begins. -/
theorem lock_lists_stay_canonical_after_front_unlock :
    let file : FileKey := ⟨1, ⟨[1], by decide⟩⟩
    let calls : List Call := [.lock file (makeLowner 1 [97]) ⟨0, 100⟩ false, .lock file (makeLowner 2 [98]) ⟨10, 10⟩ false,
      .unlock file (makeLowner 1 [97]) ⟨0, 10⟩]
    AllKeep empty calls ∧ (run calls).WellKept := by
  intro file calls
  have hkeep : AllKeep empty calls := by decide +kernel
  exact ⟨hkeep, lock_lists_stay_canonical calls hkeep⟩

/-- The first owner gives up the middle of its range, where the other's lock lies. What it keeps behind the
middle stands in front of that lock. -/
theorem unlock_leaves_list_unsorted :
    let file : FileKey := ⟨1, ⟨[1], by decide⟩⟩
    let calls : List Call := [.lock file (makeLowner 1 [97]) ⟨0, 100⟩ false, .lock file (makeLowner 2 [98]) ⟨10, 10⟩ false,
      .unlock file (makeLowner 1 [97]) ⟨5, 45⟩]
    (∀ c ∈ calls, c.RangeOk) ∧ ((run calls).segments file).map (fun s => (s.start, s.stop)) = [(0, 5), (50, 100), (10, 20)] ∧
      ¬SortedByStart ((run calls).segments file) := by
  decide +kernel

end GatewayLockMgr

end LightNfs
