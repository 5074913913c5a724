import LightNfs.Lib.LockMap
import LightNfs.Lock.Cover

/-!
# The lock table refines the naive map

`Refines` relates the gateway table to a naive map from bytes to owners and modes: both say the same
about every byte. Every call keeps it, the answers of `lock` and `test` are those of the naive map, and
a call touches no other owner and no other file.
-/

namespace LightNfs

/-- The abstract map of the gateway: files, byte offsets, owners by their counted bytes. -/
abbrev ByteMap := LockMap FileKey UInt64 Bytes

def LockRange.bytes (r : LockRange) : Set UInt64 := {b | r.offset ≤ b ∧ b < rangeEnd r}

@[simp] theorem LockRange.mem_bytes {r : LockRange} {b : UInt64} : b ∈ r.bytes ↔ r.offset ≤ b ∧ b < rangeEnd r := Iff.rfl

namespace GatewayLockMgr

/-- The table and the naive map agree on who holds what. -/
def Refines (m : GatewayLockMgr) (n : ByteMap) : Prop :=
  ∀ file owner exclusive b, Holds (m.segments file) owner exclusive b ↔ n file b owner = some exclusive

def AllNonEmpty (m : GatewayLockMgr) : Prop := ∀ file, NonEmpty (m.segments file)

section Segments

variable {m : GatewayLockMgr} {file file' : FileKey}

@[simp] theorem segments_empty : empty.segments file = [] := rfl

@[simp] theorem segments_tryEmplace : (m.tryEmplace file).segments file' = m.segments file' := by
  unfold tryEmplace
  split
  · rfl
  · rename_i h
    by_cases hfile : file' = file
    · subst hfile
      simp [segments, h]
    · simp [segments, hfile]

theorem segments_account {segs : List LockSeg} {before : Nat} :
    (m.account file segs before).segments file' = if file' = file then segs else m.segments file' := by
  by_cases hfile : file' = file
  · subst hfile
    cases segs <;> simp [account, segments, eraseFile]
  · cases segs <;> simp [account, segments, eraseFile, hfile]

theorem find_conflicting_eq_none {n : ByteMap} (href : m.Refines n) (hne : m.AllNonEmpty) (file : FileKey)
    (owner : Option LockOwnerId) {range : LockRange} (hrange : range.offset < rangeEnd range) (exclusive : Bool) :
    (m.segments file).find? (conflicting owner range.offset (rangeEnd range) exclusive) = none ↔
      ¬n.Conflict file (owner.map LockOwnerId.view) range.bytes exclusive := by
  rw [List.find?_eq_none, LockMap.Conflict]
  have howner : ∀ s : LockSeg, owner.any (sameOwner s.owner) = true ↔
      owner.map LockOwnerId.view = some s.owner.view := by
    intro s
    cases owner with
    | none => simp
    | some o =>
      rw [Option.any_some, sameOwner_iff, Option.map_some, Option.some.injEq]
      exact eq_comm
  constructor
  · rintro hnone ⟨b, hb, other, mode, hother, hheld, hexcl⟩
    obtain ⟨s, hs, rfl, rfl, hmem⟩ := (href file other mode b).mpr hheld
    apply hnone s hs
    have hover := (overlaps_iff_common_byte (hne file s hs) hrange).mpr ⟨b, hmem, hb⟩
    have hforeign : owner.any (sameOwner s.owner) = false := by
      rw [Bool.eq_false_iff]
      exact fun h => hother ((howner s).mp h)
    simp [conflicting, hover, hforeign, hexcl]
  · intro hfree s hs hcon
    simp only [conflicting, Bool.and_eq_true, Bool.not_eq_true', Bool.or_eq_false_iff, Bool.not_eq_false'] at hcon
    obtain ⟨⟨hforeign, hover⟩, hexcl⟩ := hcon
    obtain ⟨b, hmem, hb⟩ := (overlaps_iff_common_byte (hne file s hs) hrange).mp hover
    refine hfree ⟨b, hb, s.owner.view, s.exclusive, ?_, (href _ _ _ _).mp ⟨s, hs, rfl, rfl, hmem⟩, hexcl⟩
    intro heq
    rw [(howner s).mpr heq] at hforeign
    exact absurd hforeign (by simp)

end Segments

/-! ### One call -/

section Call

variable {m : GatewayLockMgr} {n : ByteMap} {file : FileKey} {owner : LockOwnerId} {range : LockRange} {exclusive : Bool}

theorem lock_refused (h : ((m.lock file owner range exclusive).2).isSome) : (m.lock file owner range exclusive).1 = m := by
  have hfind : ∃ seg, (m.segments file).find? (conflicting (some owner) range.offset (rangeEnd range) exclusive) = some seg := by
    by_contra hnone
    simp only [not_exists, ← Option.eq_none_iff_forall_ne_some] at hnone
    simp [lock, hnone] at h
  obtain ⟨seg, hseg⟩ := hfind
  have hmem := List.mem_of_find?_eq_some hseg
  have hsegs : m.segments file ≠ [] := List.ne_nil_of_mem hmem
  -- A conflicting segment exists, so the file already had its entry and emplacing it did nothing.
  have hemplace : m.tryEmplace file = m := by
    unfold tryEmplace
    split
    · rfl
    · rename_i hnone
      exact absurd (by simp [segments, hnone]) hsegs
  simp [lock, hemplace, hseg, hsegs]

theorem lock_granted_iff (href : m.Refines n) (hne : m.AllNonEmpty) (hrange : range.offset < rangeEnd range)
    (file : FileKey) (owner : LockOwnerId) (exclusive : Bool) :
    (m.lock file owner range exclusive).2 = none ↔ ¬n.Conflict file (some owner.view) range.bytes exclusive := by
  have hfind := find_conflicting_eq_none href hne file (some owner) hrange exclusive
  rw [Option.map_some] at hfind
  rw [← hfind]
  simp only [lock, segments_tryEmplace]
  split
  · rename_i hsome
    simp [hsome]
  · rename_i hnone
    simp [hnone]

theorem segments_lock_granted (h : (m.lock file owner range exclusive).2 = none) (file' : FileKey) :
    (m.lock file owner range exclusive).1.segments file' = if file' = file then
      coalesce (carve (m.segments file) owner range.offset (rangeEnd range) ++
        [⟨owner, range.offset, rangeEnd range, exclusive⟩]) else m.segments file' := by
  simp only [lock, segments_tryEmplace] at h ⊢
  split at h
  · simp at h
  · rename_i hnone
    simp only [segments_account, segments_tryEmplace]

theorem refines_lock (href : m.Refines n) (hne : m.AllNonEmpty) (hrange : range.offset < rangeEnd range)
    (file : FileKey) (owner : LockOwnerId) (exclusive : Bool) :
    (m.lock file owner range exclusive).1.Refines (n.lock file owner.view range.bytes exclusive) := by
  have hgrant := lock_granted_iff href hne hrange file owner exclusive
  by_cases hcon : n.Conflict file (some owner.view) range.bytes exclusive
  · have hrefused : ((m.lock file owner range exclusive).2).isSome := by
      rw [Option.isSome_iff_ne_none]
      exact fun h => (hgrant.mp h) hcon
    rw [lock_refused hrefused, LockMap.lock, if_pos hcon]
    exact href
  · rw [LockMap.lock, if_neg hcon]
    intro f o e b
    rw [segments_lock_granted (hgrant.mpr hcon), LockMap.assign]
    by_cases hf : f = file
    · subst hf
      rw [if_pos rfl, holds_coalesce, holds_append, holds_carve, href f o e b]
      simp only [holds_cons, holds_nil, or_false, true_and, LockSeg.Mem, LockRange.mem_bytes]
      split
      · rename_i hin
        obtain ⟨rfl, hb⟩ := hin
        simp [hb]
      · rename_i hout
        constructor
        · rintro (h | ⟨rfl, -, hb⟩)
          · exact h.1
          · exact absurd ⟨rfl, hb⟩ hout
        · exact fun h => Or.inl ⟨h, hout⟩
    · rw [if_neg hf, if_neg (fun h => hf h.1)]
      exact href f o e b

theorem segments_unlock (file' : FileKey) :
    (m.unlock file owner range).segments file' = if file' = file then
      carve (m.segments file) owner range.offset (rangeEnd range) else m.segments file' := by
  unfold unlock
  split
  · rename_i hnone
    by_cases hfile : file' = file
    · subst hfile
      simp [segments, hnone, carve]
    · simp [hfile]
  · rename_i segs hsegs
    rw [segments_account]
    simp [segments, hsegs]

theorem refines_unlock (href : m.Refines n) :
    (m.unlock file owner range).Refines (n.assign file owner.view range.bytes none) := by
  intro f o e b
  rw [segments_unlock, LockMap.assign]
  by_cases hf : f = file
  · subst hf
    rw [if_pos rfl, holds_carve, href f o e b]
    simp only [true_and, LockRange.mem_bytes]
    split
    · rename_i hin
      simp [hin]
    · rename_i hout
      exact ⟨fun h => h.1, fun h => ⟨h, hout⟩⟩
  · rw [if_neg hf, if_neg (fun h => hf h.1)]
    exact href f o e b

theorem segments_releaseOwner (file' : FileKey) :
    (m.releaseOwner file owner).1.segments file' = if file' = file then
      (m.segments file).filter (fun seg => !sameOwner seg.owner owner) else m.segments file' := by
  unfold releaseOwner
  split
  · rename_i hnone
    by_cases hfile : file' = file
    · subst hfile
      simp [segments, hnone]
    · simp [hfile]
  · rename_i segs hsegs
    simp only [segments_account]
    simp [segments, hsegs]

theorem refines_releaseOwner (href : m.Refines n) :
    (m.releaseOwner file owner).1.Refines (n.assign file owner.view Set.univ none) := by
  intro f o e b
  rw [segments_releaseOwner, LockMap.assign]
  by_cases hf : f = file
  · subst hf
    rw [if_pos rfl]
    simp only [true_and, Set.mem_univ, and_true]
    have hfilter : Holds ((m.segments f).filter fun seg => !sameOwner seg.owner owner) o e b ↔
        Holds (m.segments f) o e b ∧ o ≠ owner.view := by
      simp only [Holds, List.mem_filter, Bool.not_eq_true', ← Bool.not_eq_true, sameOwner_iff]
      constructor
      · rintro ⟨s, ⟨hs, hother⟩, rfl, hrest⟩
        exact ⟨⟨s, hs, rfl, hrest⟩, hother⟩
      · rintro ⟨⟨s, hs, rfl, hrest⟩, hother⟩
        exact ⟨s, ⟨hs, hother⟩, rfl, hrest⟩
    rw [hfilter, href f o e b]
    split
    · rename_i hown
      simp [hown]
    · rename_i hown
      exact ⟨fun h => h.1, fun h => ⟨h, hown⟩⟩
  · rw [if_neg hf, if_neg (fun h => hf h.1)]
    exact href f o e b

theorem test_eq_none_iff {tester : Option LockOwnerId} (href : m.Refines n) (hne : m.AllNonEmpty)
    (hrange : range.offset < rangeEnd range) :
    m.test file tester range exclusive = none ↔
      ¬n.Conflict file (tester.map LockOwnerId.view) range.bytes exclusive := by
  rw [← find_conflicting_eq_none href hne file tester hrange exclusive]
  unfold test
  split
  · rename_i hnone
    simp [segments, hnone]
  · rename_i segs hsegs
    simp [segments, hsegs]

/-! ### Segments stay non-empty -/

theorem allNonEmpty_lock (hne : m.AllNonEmpty) (hrange : range.offset < rangeEnd range) (file : FileKey)
    (owner : LockOwnerId) (exclusive : Bool) : (m.lock file owner range exclusive).1.AllNonEmpty := by
  cases hres : (m.lock file owner range exclusive).2 with
  | some c =>
    rw [lock_refused (by simp [hres])]
    exact hne
  | none =>
    intro f
    rw [segments_lock_granted hres]
    split
    · apply nonEmpty_coalesce
      intro s hs
      rcases List.mem_append.mp hs with hs | hs
      · exact nonEmpty_carve (hne file) owner range.offset (rangeEnd range) s hs
      · rw [List.mem_singleton] at hs
        exact hs ▸ hrange
    · exact hne f

theorem allNonEmpty_unlock (hne : m.AllNonEmpty) : (m.unlock file owner range).AllNonEmpty := by
  intro f
  rw [segments_unlock]
  split
  · exact nonEmpty_carve (hne file) owner range.offset (rangeEnd range)
  · exact hne f

theorem allNonEmpty_releaseOwner (hne : m.AllNonEmpty) : (m.releaseOwner file owner).1.AllNonEmpty := by
  intro f
  rw [segments_releaseOwner]
  split
  · exact fun s hs => hne file s (List.mem_of_mem_filter hs)
  · exact hne f

end Call

/-! ### Sequences of calls -/

inductive Call where
  | lock (file : FileKey) (owner : LockOwnerId) (range : LockRange) (exclusive : Bool)
  | unlock (file : FileKey) (owner : LockOwnerId) (range : LockRange)
  | test (file : FileKey) (owner : Option LockOwnerId) (range : LockRange) (exclusive : Bool)
  | releaseOwner (file : FileKey) (owner : LockOwnerId)

namespace Call

/-- The range the call names has at least one byte. -/
def RangeOk : Call → Prop
  | lock _ _ range _ | unlock _ _ range | test _ _ range _ => range.offset < rangeEnd range
  | releaseOwner _ _ => True

instance : DecidablePred RangeOk := fun c => by cases c <;> unfold RangeOk <;> infer_instance

/-- The call cannot concern this owner on this file. -/
def Elsewhere (f : FileKey) (o : Bytes) : Call → Prop
  | lock file owner _ _ | unlock file owner _ | releaseOwner file owner => f ≠ file ∨ o ≠ owner.view
  | test .. => True

end Call

def call (m : GatewayLockMgr) : Call → GatewayLockMgr
  | .lock file owner range exclusive => (m.lock file owner range exclusive).1
  | .unlock file owner range => m.unlock file owner range
  | .test .. => m
  | .releaseOwner file owner => (m.releaseOwner file owner).1

/-- What a call does to the naive map. -/
noncomputable def naiveCall (n : ByteMap) : Call → ByteMap
  | .lock file owner range exclusive => n.lock file owner.view range.bytes exclusive
  | .unlock file owner range => n.assign file owner.view range.bytes none
  | .test .. => n
  | .releaseOwner file owner => n.assign file owner.view Set.univ none

def run (calls : List Call) : GatewayLockMgr := calls.foldl call empty

noncomputable def naiveRun (calls : List Call) : ByteMap := calls.foldl naiveCall LockMap.empty

/-- Everything one call has to do: coverage, answers, refusals and the frame. -/
structure Matches (m : GatewayLockMgr) (n : ByteMap) (c : Call) : Prop where
  before : m.Refines n
  after : (m.call c).Refines (naiveCall n c)
  granted : ∀ file owner range exclusive, c = .lock file owner range exclusive →
    ((m.lock file owner range exclusive).2 = none ↔ ¬n.Conflict file (some owner.view) range.bytes exclusive)
  refused : ∀ file owner range exclusive, c = .lock file owner range exclusive →
    (m.lock file owner range exclusive).2 ≠ none → m.call c = m
  tested : ∀ file owner range exclusive, c = .test file owner range exclusive →
    (m.test file owner range exclusive = none ↔
      ¬n.Conflict file (owner.map LockOwnerId.view) range.bytes exclusive)
  frame : ∀ f o, c.Elsewhere f o → ∀ e b, Holds ((m.call c).segments f) o e b ↔ Holds (m.segments f) o e b

theorem refines_empty : empty.Refines LockMap.empty := by
  intro file owner exclusive b
  simp [LockMap.empty]

theorem refines_call {m : GatewayLockMgr} {n : ByteMap} {c : Call} (href : m.Refines n) (hne : m.AllNonEmpty)
    (hc : c.RangeOk) : (m.call c).Refines (naiveCall n c) ∧ (m.call c).AllNonEmpty := by
  cases c with
  | lock file owner range exclusive => exact ⟨refines_lock href hne hc file owner exclusive, allNonEmpty_lock hne hc file owner exclusive⟩
  | unlock file owner range => exact ⟨refines_unlock href, allNonEmpty_unlock hne⟩
  | test file owner range exclusive => exact ⟨href, hne⟩
  | releaseOwner file owner => exact ⟨refines_releaseOwner href, allNonEmpty_releaseOwner hne⟩

theorem refines_run {calls : List Call} (hok : ∀ c ∈ calls, c.RangeOk) :
    (run calls).Refines (naiveRun calls) ∧ (run calls).AllNonEmpty := by
  have hfold : ∀ (l : List Call) (m : GatewayLockMgr) (n : ByteMap), (∀ c ∈ l, c.RangeOk) → m.Refines n →
      m.AllNonEmpty → (l.foldl call m).Refines (l.foldl naiveCall n) ∧ (l.foldl call m).AllNonEmpty := by
    intro l
    induction l with
    | nil => exact fun m n _ href hne => ⟨href, hne⟩
    | cons c l ih =>
      intro m n hl href hne
      obtain ⟨href', hne'⟩ := refines_call href hne (hl c (List.mem_cons_self ..))
      exact ih _ _ (fun d hd => hl d (List.mem_cons_of_mem c hd)) href' hne'
  exact hfold calls empty LockMap.empty hok refines_empty fun file s hs => absurd hs (by simp)

theorem naiveCall_elsewhere {n : ByteMap} {c : Call} {f : FileKey} {o : Bytes} (h : c.Elsewhere f o) (b : UInt64) :
    naiveCall n c f b o = n f b o := by
  cases c with
  | lock file owner range exclusive =>
    simp only [naiveCall, LockMap.lock]
    split
    · rfl
    · simp only [LockMap.assign]
      rw [if_neg]
      rintro ⟨rfl, rfl, -⟩
      exact h.elim (fun h => h rfl) fun h => h rfl
  | unlock file owner range =>
    simp only [naiveCall, LockMap.assign]
    rw [if_neg]
    rintro ⟨rfl, rfl, -⟩
    exact h.elim (fun h => h rfl) fun h => h rfl
  | test file owner range exclusive => rfl
  | releaseOwner file owner =>
    simp only [naiveCall, LockMap.assign]
    rw [if_neg]
    rintro ⟨rfl, rfl, -⟩
    exact h.elim (fun h => h rfl) fun h => h rfl

/-- After every sequence of calls with non-empty ranges the table and the naive map agree, and every
further call is answered and carried out as the naive map says. -/
theorem lock_table_refines_byte_map (calls : List Call) (hok : ∀ c ∈ calls, c.RangeOk) (c : Call) (hc : c.RangeOk) :
    Matches (run calls) (naiveRun calls) c := by
  obtain ⟨href, hne⟩ := refines_run hok
  have hafter := (refines_call href hne hc).1
  refine ⟨href, hafter, ?_, ?_, ?_, ?_⟩
  · rintro file owner range exclusive rfl
    exact lock_granted_iff href hne hc file owner exclusive
  · rintro file owner range exclusive rfl hsome
    exact lock_refused (Option.isSome_iff_ne_none.mpr hsome)
  · rintro file owner range exclusive rfl
    exact test_eq_none_iff href hne hc
  · intro f o helse e b
    rw [hafter f o e b, naiveCall_elsewhere helse, href f o e b]

/-- One owner's exclusive lock, then an overlapping request of another, which is refused. -/
theorem refused_lock_matches_byte_map :
    let file : FileKey := ⟨1, ⟨[1], by decide⟩⟩
    let calls : List Call := [.lock file (makeLowner 1 [97]) ⟨0, 10⟩ true]
    let request : Call := .lock file (makeLowner 2 [98]) ⟨5, 10⟩ false
    Matches (run calls) (naiveRun calls) request ∧
      ((run calls).lock file (makeLowner 2 [98]) ⟨5, 10⟩ false).2 ≠ none := by
  intro file calls request
  refine ⟨lock_table_refines_byte_map calls ?_ request ?_, ?_⟩ <;> decide

end GatewayLockMgr

end LightNfs
