import LightNfs.Lock.Refinement
import LightNfs.Nfs4.Status

/-!
# Byte-range exclusion as the clients see it

On the wire a length of `2^64 - 1` covers every byte from the offset up to and including byte
`2^64 - 1`. The table stores half-open segments whose end is at most `2^64 - 1`, so it has no room for
that last byte. `WireState` runs the requests that pass `check_lock_range` against the table of one
file and records beside it what each owner was granted and has not given back. The two agree below the
last byte; at the last byte the table still protects the holder through the byte before it, as long as
no request starts at the last byte and no holder of it touches the bytes right below it alone.
-/

namespace LightNfs

def checkLockRange (locktype : UInt32) (offset length : UInt64) : Status :=
  if locktype < 1 ∨ locktype > 4 then .inval
  else if length = 0 then .inval
  else if length ≠ uint64Max ∧ offset > uint64Max - length then .inval
  else .ok

/-- The engine's reading of `locktype`: `WRITE_LT` and `WRITEW_LT` are exclusive. -/
def isWriteLock (locktype : UInt32) : Bool := locktype == 2 || locktype == 4

/-- A lock owner as the protocol names it. -/
structure WireOwner where
  clientid : UInt64
  owner : Bytes
deriving DecidableEq

def WireOwner.lowner (who : WireOwner) : LockOwnerId := makeLowner who.clientid who.owner

/-- The byte is one of those a request with this offset and length names. -/
def WireCovers (offset length b : UInt64) : Prop := offset ≤ b ∧ (length = uint64Max ∨ b - offset < length)

instance (offset length b : UInt64) : Decidable (WireCovers offset length b) := inferInstanceAs (Decidable (_ ∧ _))

/-- The requests of the protocol that reach the lock table of a file. -/
inductive WireReq where
  | lock (who : WireOwner) (locktype : UInt32) (offset length : UInt64)
  | locku (who : WireOwner) (locktype : UInt32) (offset length : UInt64)
  | close (who : WireOwner)

/-- The table, and what was granted and not yet unlocked. -/
structure WireState where
  table : GatewayLockMgr
  granted : WireOwner → UInt64 → Option Bool

namespace WireState

def initial : WireState := ⟨GatewayLockMgr.empty, fun _ _ => none⟩

def record (granted : WireOwner → UInt64 → Option Bool) (who : WireOwner) (offset length : UInt64)
    (mode : Option Bool) : WireOwner → UInt64 → Option Bool :=
  fun o b => if o = who ∧ WireCovers offset length b then mode else granted o b

/-- One request: the range check of the engine, then the call on the table. -/
def step (file : FileKey) (s : WireState) : WireReq → WireState
  | .lock who locktype offset length =>
    if checkLockRange locktype offset length = .ok then
      let exclusive := isWriteLock locktype
      match s.table.lock file who.lowner ⟨offset, length⟩ exclusive with
      | (table, none) => ⟨table, record s.granted who offset length (some exclusive)⟩
      | (table, some _) => ⟨table, s.granted⟩
    else s
  | .locku who locktype offset length =>
    if checkLockRange locktype offset length = .ok then
      ⟨s.table.unlock file who.lowner ⟨offset, length⟩, record s.granted who offset length none⟩
    else s
  | .close who => ⟨(s.table.releaseOwner file who.lowner).1, record s.granted who 0 uint64Max none⟩

def run (file : FileKey) (s : WireState) (reqs : List WireReq) : WireState := reqs.foldl (step file) s

/-- No byte is granted to two owners of which one holds it exclusively. -/
def MutualExclusion (s : WireState) : Prop :=
  ∀ a b byte ma mb, a ≠ b → s.granted a byte = some ma → s.granted b byte = some mb → ma = false ∧ mb = false

end WireState

namespace WireReq

def who : WireReq → WireOwner
  | lock who .. | locku who .. | close who => who

/-- The finite range ends right below the last byte. -/
def EndsBelowLast (offset length : UInt64) : Prop := length ≠ uint64Max ∧ offset + length = uint64Max

instance (offset length : UInt64) : Decidable (EndsBelowLast offset length) := inferInstanceAs (Decidable (_ ∧ _))

/-- The request stays clear of the last byte: no lock starts there, and no finite range that ends right
below it takes the bytes from under a lock on it. Requests the engine refuses are clear. -/
def Clear (s : WireState) : WireReq → Prop
  | lock who locktype offset length => checkLockRange locktype offset length = .ok → offset ≠ uint64Max ∧
      (EndsBelowLast offset length → isWriteLock locktype = false → s.granted who uint64Max ≠ some true)
  | locku who locktype offset length => checkLockRange locktype offset length = .ok →
      EndsBelowLast offset length → s.granted who uint64Max = none
  | close _ => True

instance (s : WireState) : (req : WireReq) → Decidable (req.Clear s)
  | lock .. => inferInstanceAs (Decidable (_ → _ ∧ (_ → _ → _ ≠ _)))
  | locku .. => inferInstanceAs (Decidable (_ → _ → _ = _))
  | close _ => inferInstanceAs (Decidable True)

end WireReq

/-- Every request of the run is clear of the last byte in the state it arrives in. -/
def ClearRun (file : FileKey) : WireState → List WireReq → Prop
  | _, [] => True
  | s, req :: reqs => req.Clear s ∧ ClearRun file (s.step file req) reqs

instance instDecidableClearRun (file : FileKey) : (s : WireState) → (reqs : List WireReq) →
    Decidable (ClearRun file s reqs)
  | _, [] => inferInstanceAs (Decidable True)
  | s, req :: reqs =>
    have := instDecidableClearRun file (s.step file req) reqs
    inferInstanceAs (Decidable (_ ∧ _))

/-- Owners that send requests have distinct lock-owner ids. -/
def DistinctIds (reqs : List WireReq) : Prop :=
  ∀ r ∈ reqs, ∀ r' ∈ reqs, sameOwner r.who.lowner r'.who.lowner = true → r.who = r'.who

instance (reqs : List WireReq) : Decidable (DistinctIds reqs) := inferInstanceAs (Decidable (∀ r ∈ reqs, _))

/-! ### Wire ranges and table ranges -/

section Ranges

variable {locktype : UInt32} {offset length b : UInt64}

theorem checkLockRange_eq_ok (h : checkLockRange locktype offset length = .ok) :
    length ≠ 0 ∧ (length = uint64Max ∨ offset ≤ uint64Max - length) := by
  simp only [checkLockRange] at h
  split at h
  · exact absurd h (by simp)
  · split at h
    · exact absurd h (by simp)
    · split at h
      · exact absurd h (by simp)
      · rename_i h1 h2 h3
        refine ⟨h2, ?_⟩
        by_cases hmax : length = uint64Max
        · exact Or.inl hmax
        · exact Or.inr (by lia)

theorem rangeEnd_of_finite (hfin : length ≠ uint64Max) (hfit : offset ≤ uint64Max - length) :
    rangeEnd ⟨offset, length⟩ = offset + length := by
  simp only [rangeEnd]
  rw [if_neg (by lia)]

theorem rangeEnd_of_eof : rangeEnd ⟨offset, uint64Max⟩ = uint64Max := by simp [rangeEnd]

theorem mem_bytes_iff_wireCovers (h : checkLockRange locktype offset length = .ok) (hb : b ≠ uint64Max) :
    b ∈ (LockRange.mk offset length).bytes ↔ WireCovers offset length b := by
  obtain ⟨hpos, heof | hfit⟩ := checkLockRange_eq_ok h
  · subst heof
    simp only [LockRange.mem_bytes, rangeEnd_of_eof, WireCovers]
    lia
  · by_cases hmax : length = uint64Max
    · subst hmax
      simp only [LockRange.mem_bytes, rangeEnd_of_eof, WireCovers]
      lia
    · simp only [LockRange.mem_bytes, rangeEnd_of_finite hmax hfit, WireCovers]
      lia

theorem wireCovers_last (h : checkLockRange locktype offset length = .ok) :
    WireCovers offset length uint64Max ↔ length = uint64Max := by
  obtain ⟨hpos, hfit⟩ := checkLockRange_eq_ok h
  simp only [WireCovers]
  lia

theorem offset_lt_rangeEnd (h : checkLockRange locktype offset length = .ok) (hoff : offset ≠ uint64Max) :
    offset < rangeEnd ⟨offset, length⟩ := by
  obtain ⟨hpos, hfit⟩ := checkLockRange_eq_ok h
  by_cases hmax : length = uint64Max
  · subst hmax
    rw [rangeEnd_of_eof]
    lia
  · rw [rangeEnd_of_finite hmax (hfit.resolve_left hmax)]
    lia

/-- The byte below the last is in the table's range of a request that covers the last byte, and of a
finite range only if that range ends right there. -/
theorem mem_bytes_penultimate (h : checkLockRange locktype offset length = .ok) (hoff : offset ≠ uint64Max) :
    uint64Max - 1 ∈ (LockRange.mk offset length).bytes ↔
      length = uint64Max ∨ WireReq.EndsBelowLast offset length := by
  obtain ⟨hpos, hfit⟩ := checkLockRange_eq_ok h
  by_cases hmax : length = uint64Max
  · subst hmax
    simp only [LockRange.mem_bytes, rangeEnd_of_eof]
    lia
  · simp only [LockRange.mem_bytes, rangeEnd_of_finite hmax (hfit.resolve_left hmax), WireReq.EndsBelowLast]
    lia

end Ranges

/-! ### The invariant -/

/-- The table and the grants agree below the last byte, and the last byte is backed by the one below it.
`n` is the naive map of the table and `owners` are the owners that may send requests. -/
structure WireInv (file : FileKey) (owners : List WireOwner) (s : WireState) (n : ByteMap) : Prop where
  refines : s.table.Refines n
  nonEmpty : s.table.AllNonEmpty
  exclusive : n.Exclusive
  outside : ∀ a, a ∉ owners → ∀ b, s.granted a b = none
  below : ∀ a ∈ owners, ∀ b, b ≠ uint64Max → s.granted a b = n file b a.lowner.view
  last : ∀ a ∈ owners, ∀ e, s.granted a uint64Max = some e →
    ∃ e', n file (uint64Max - 1) a.lowner.view = some e' ∧ (e = true → e' = true)

namespace WireInv

variable {file : FileKey} {owners : List WireOwner} {s : WireState} {n : ByteMap}
variable {who : WireOwner} {offset length : UInt64}

theorem initial (file : FileKey) (owners : List WireOwner) : WireInv file owners WireState.initial LockMap.empty where
  refines := GatewayLockMgr.refines_empty
  nonEmpty := fun f seg hseg => absurd hseg (by simp [WireState.initial])
  exclusive := LockMap.exclusive_empty
  outside := fun _ _ _ => rfl
  below := fun _ _ _ _ => rfl
  last := fun _ _ _ h => absurd h (by simp [WireState.initial])

theorem mutualExclusion (h : WireInv file owners s n)
    (hinj : ∀ a ∈ owners, ∀ b ∈ owners, a.lowner.view = b.lowner.view → a = b) : s.MutualExclusion := by
  intro a b byte ma mb hne ha hb
  have hmem : ∀ o m, s.granted o byte = some m → o ∈ owners := by
    intro o m hm
    by_contra hout
    rw [h.outside o hout byte] at hm
    exact absurd hm (by simp)
  have haowner := hmem a ma ha
  have hbowner := hmem b mb hb
  have hview : a.lowner.view ≠ b.lowner.view := fun heq => hne (hinj a haowner b hbowner heq)
  by_cases hbyte : byte = uint64Max
  · subst hbyte
    obtain ⟨ma', hna, hima⟩ := h.last a haowner ma ha
    obtain ⟨mb', hnb, himb⟩ := h.last b hbowner mb hb
    obtain ⟨rfl, rfl⟩ := h.exclusive _ _ _ _ _ _ hview hna hnb
    exact ⟨by simpa using hima, by simpa using himb⟩
  · rw [h.below a haowner byte hbyte] at ha
    rw [h.below b hbowner byte hbyte] at hb
    exact h.exclusive _ _ _ _ _ _ hview ha hb

theorem record_assign {range : Set UInt64} {mode : Option Bool}
    {table : GatewayLockMgr} (h : WireInv file owners s n) (hwho : who ∈ owners)
    (hinj : ∀ a ∈ owners, ∀ b ∈ owners, a.lowner.view = b.lowner.view → a = b)
    (hrange : ∀ b, b ≠ uint64Max → (b ∈ range ↔ WireCovers offset length b))
    (hcover : WireCovers offset length uint64Max → mode ≠ none → uint64Max - 1 ∈ range)
    (hkeep : ¬WireCovers offset length uint64Max → uint64Max - 1 ∈ range → ∀ e, s.granted who uint64Max = some e →
      ∃ e', mode = some e' ∧ (e = true → e' = true))
    (href : table.Refines (n.assign file who.lowner.view range mode)) (hne : table.AllNonEmpty)
    (hexcl : (n.assign file who.lowner.view range mode).Exclusive) :
    WireInv file owners ⟨table, WireState.record s.granted who offset length mode⟩
      (n.assign file who.lowner.view range mode) where
  refines := href
  nonEmpty := hne
  exclusive := hexcl
  outside := by
    intro a ha b
    have hother : ¬(a = who ∧ WireCovers offset length b) := fun hin => ha (hin.1 ▸ hwho)
    simp only [WireState.record, if_neg hother]
    exact h.outside a ha b
  below := by
    intro a ha b hb
    have hsame : a.lowner.view = who.lowner.view ↔ a = who :=
      ⟨fun heq => hinj a ha who hwho heq, fun heq => by rw [heq]⟩
    simp only [WireState.record, LockMap.assign, true_and, hsame, hrange b hb, h.below a ha b hb]
  last := by
    intro a ha e hgrant
    have hsame : a.lowner.view = who.lowner.view ↔ a = who :=
      ⟨fun heq => hinj a ha who hwho heq, fun heq => by rw [heq]⟩
    simp only [WireState.record] at hgrant
    simp only [LockMap.assign]
    split at hgrant
    · rename_i hin
      rw [if_pos ⟨rfl, hsame.mpr hin.1, hcover hin.2 (by simp [hgrant])⟩]
      exact ⟨e, hgrant, fun he => he⟩
    · rename_i hout
      split
      · rename_i hin
        obtain ⟨-, hview, hpen⟩ := hin
        obtain rfl := hsame.mp hview
        exact hkeep (fun hcov => hout ⟨rfl, hcov⟩) hpen e hgrant
      · exact h.last a ha e hgrant

theorem step_lock {locktype : UInt32} (h : WireInv file owners s n)
    (hwho : who ∈ owners) (hinj : ∀ a ∈ owners, ∀ b ∈ owners, a.lowner.view = b.lowner.view → a = b)
    (hclear : (WireReq.lock who locktype offset length).Clear s) :
    ∃ n', WireInv file owners (s.step file (.lock who locktype offset length)) n' := by
  simp only [WireState.step]
  split
  · rename_i hcheck
    obtain ⟨hoff, hdown⟩ := hclear hcheck
    have hrange : (LockRange.mk offset length).offset < rangeEnd ⟨offset, length⟩ := offset_lt_rangeEnd hcheck hoff
    have href := GatewayLockMgr.refines_lock h.refines h.nonEmpty hrange file who.lowner (isWriteLock locktype)
    have hgrant := GatewayLockMgr.lock_granted_iff h.refines h.nonEmpty hrange file who.lowner (isWriteLock locktype)
    have hne := GatewayLockMgr.allNonEmpty_lock h.nonEmpty hrange file who.lowner (isWriteLock locktype)
    have hexcl := LockMap.exclusive_lock h.exclusive file who.lowner.view (LockRange.mk offset length).bytes
      (isWriteLock locktype)
    split
    · rename_i table hlock
      rw [hlock] at href hne hgrant
      rw [LockMap.lock, if_neg (hgrant.mp rfl)] at href hexcl
      refine ⟨_, h.record_assign hwho hinj (fun b hb => mem_bytes_iff_wireCovers hcheck hb) ?_ ?_ href hne hexcl⟩
      · intro hcov _
        exact (mem_bytes_penultimate hcheck hoff).mpr (Or.inl ((wireCovers_last hcheck).mp hcov))
      · intro hcov hpen e he
        refine ⟨_, rfl, fun hetrue => ?_⟩
        have hfinite : length ≠ uint64Max := fun heq => hcov ((wireCovers_last hcheck).mpr heq)
        have hends := ((mem_bytes_penultimate hcheck hoff).mp hpen).resolve_left hfinite
        by_contra hshared
        exact hdown hends (by simpa using hshared) (hetrue ▸ he)
    · rename_i table conflict hlock
      have hrefused : (s.table.lock file who.lowner ⟨offset, length⟩ (isWriteLock locktype)).1 = s.table :=
        GatewayLockMgr.lock_refused (by rw [hlock]; rfl)
      rw [hlock] at hrefused
      obtain rfl : table = s.table := hrefused
      exact ⟨n, h⟩
  · exact ⟨n, h⟩

theorem step_locku {locktype : UInt32} (h : WireInv file owners s n)
    (hwho : who ∈ owners) (hinj : ∀ a ∈ owners, ∀ b ∈ owners, a.lowner.view = b.lowner.view → a = b)
    (hclear : (WireReq.locku who locktype offset length).Clear s) :
    ∃ n', WireInv file owners (s.step file (.locku who locktype offset length)) n' := by
  simp only [WireState.step]
  split
  · rename_i hcheck
    refine ⟨_, h.record_assign hwho hinj (fun b hb => mem_bytes_iff_wireCovers hcheck hb) ?_ ?_
      (GatewayLockMgr.refines_unlock h.refines) (GatewayLockMgr.allNonEmpty_unlock h.nonEmpty)
      (LockMap.exclusive_assign_none h.exclusive _ _ _)⟩
    · intro _ hmode
      exact absurd rfl hmode
    · intro hcov hpen e he
      have hfinite : length ≠ uint64Max := fun heq => hcov ((wireCovers_last hcheck).mpr heq)
      by_cases hoff : offset = uint64Max
      · obtain ⟨hpos, hfit⟩ := checkLockRange_eq_ok hcheck
        exact absurd (hfit.resolve_left hfinite) (by lia)
      · have hends := ((mem_bytes_penultimate hcheck hoff).mp hpen).resolve_left hfinite
        rw [hclear hcheck hends] at he
        exact absurd he (by simp)
  · exact ⟨n, h⟩

theorem step_close (h : WireInv file owners s n) (hwho : who ∈ owners)
    (hinj : ∀ a ∈ owners, ∀ b ∈ owners, a.lowner.view = b.lowner.view → a = b) :
    ∃ n', WireInv file owners (s.step file (.close who)) n' := by
  have hall : ∀ b, WireCovers 0 uint64Max b := fun b => ⟨by lia, Or.inl rfl⟩
  refine ⟨_, h.record_assign hwho hinj (fun b _ => ⟨fun _ => hall b, fun _ => Set.mem_univ b⟩) ?_ ?_
    (GatewayLockMgr.refines_releaseOwner h.refines) (GatewayLockMgr.allNonEmpty_releaseOwner h.nonEmpty)
    (LockMap.exclusive_assign_none h.exclusive _ _ _)⟩
  · intro _ hmode
    exact absurd rfl hmode
  · intro hcov
    exact absurd (hall _) hcov

theorem run {reqs : List WireReq} (hinj : ∀ a ∈ owners, ∀ b ∈ owners, a.lowner.view = b.lowner.view → a = b)
    (howners : ∀ r ∈ reqs, r.who ∈ owners) (h : ∃ n, WireInv file owners s n) (hclear : ClearRun file s reqs) :
    ∃ n, WireInv file owners (s.run file reqs) n := by
  induction reqs generalizing s with
  | nil => exact h
  | cons req reqs ih =>
    obtain ⟨n, hn⟩ := h
    obtain ⟨hreq, hrest⟩ := hclear
    have hwho := howners req (List.mem_cons_self ..)
    apply ih (fun r hr => howners r (List.mem_cons_of_mem req hr)) _ hrest
    cases req with
    | lock who locktype offset length => exact hn.step_lock hwho hinj hreq
    | locku who locktype offset length => exact hn.step_locku hwho hinj hreq
    | close who => exact hn.step_close hwho hinj

end WireInv

/-- As long as requests stay clear of the last byte and lock-owner ids do not collide, no two owners ever
have grants on a common byte of which one is exclusive. -/
theorem wire_mutual_exclusion (file : FileKey) (reqs : List WireReq) (hids : DistinctIds reqs)
    (hclear : ClearRun file WireState.initial reqs) : (WireState.initial.run file reqs).MutualExclusion := by
  have hinj : ∀ a ∈ reqs.map WireReq.who, ∀ b ∈ reqs.map WireReq.who, a.lowner.view = b.lowner.view → a = b := by
    intro a ha b hb hview
    obtain ⟨r, hr, rfl⟩ := List.mem_map.mp ha
    obtain ⟨r', hr', rfl⟩ := List.mem_map.mp hb
    exact hids r hr r' hr' (sameOwner_iff.mpr hview)
  obtain ⟨n, hn⟩ := WireInv.run hinj (fun r hr => List.mem_map_of_mem hr)
    ⟨_, WireInv.initial file (reqs.map WireReq.who)⟩ hclear
  exact hn.mutualExclusion hinj

/-- A lock to the end of the file, a refused and a granted request of another owner around its unlock. -/
theorem wire_mutual_exclusion_to_eof :
    let file : FileKey := ⟨1, ⟨[1], by decide⟩⟩
    let a : WireOwner := ⟨1, [97]⟩
    let b : WireOwner := ⟨2, [98]⟩
    (WireState.initial.run file [.lock a 2 0 uint64Max, .lock b 1 5 10, .locku a 2 4 uint64Max,
      .lock b 1 5 uint64Max]).MutualExclusion :=
  wire_mutual_exclusion _ _ (by decide) (by decide)

/-- Two owners are both granted the exclusive lock of the last byte: the stored segment is empty. -/
theorem wire_exclusion_fails_at_last_byte :
    let file : FileKey := ⟨1, ⟨[1], by decide⟩⟩
    let a : WireOwner := ⟨1, [97]⟩
    let b : WireOwner := ⟨2, [98]⟩
    ¬(WireState.initial.run file [.lock a 2 uint64Max uint64Max, .lock b 2 uint64Max uint64Max]).MutualExclusion := by
  intro file a b h
  exact absurd (h a b uint64Max true true (by decide) (by decide) (by decide)) (by decide)

end LightNfs
