import LightNfs.Lock.Manager

/-!
# What a segment list covers

The bytes an owner holds in a given mode, read off a segment list, and how `carve` and `coalesce`
change them. Neither fact needs the list to be sorted, disjoint or even free of empty segments. The
last part is about non-empty segments, which the conflict loops need: only for them is overlapping the
same as sharing a byte.
-/

namespace LightNfs

namespace LockSeg

def Mem (s : LockSeg) (b : UInt64) : Prop := s.start ≤ b ∧ b < s.stop

end LockSeg

/-- The owner with these counted bytes holds byte `b` in the given mode. -/
def Holds (segs : List LockSeg) (owner : Bytes) (exclusive : Bool) (b : UInt64) : Prop :=
  ∃ s ∈ segs, s.owner.view = owner ∧ s.exclusive = exclusive ∧ s.Mem b

section Holds

variable {owner : Bytes} {exclusive : Bool} {b : UInt64}
variable {s : LockSeg} {segs out : List LockSeg}

@[simp] theorem holds_nil : ¬Holds [] owner exclusive b := by simp [Holds]

@[simp] theorem holds_cons :
    Holds (s :: segs) owner exclusive b ↔
      (s.owner.view = owner ∧ s.exclusive = exclusive ∧ s.Mem b) ∨ Holds segs owner exclusive b := by
  simp [Holds]

@[simp] theorem holds_append {l r : List LockSeg} :
    Holds (l ++ r) owner exclusive b ↔ Holds l owner exclusive b ∨ Holds r owner exclusive b := by
  simp only [Holds, List.mem_append, or_and_right, exists_or]

theorem holds_perm {l r : List LockSeg} (h : l.Perm r) : Holds l owner exclusive b ↔ Holds r owner exclusive b := by
  simp only [Holds, h.mem_iff]

@[simp] theorem holds_sortByStart :
    Holds (sortByStart segs) owner exclusive b ↔ Holds segs owner exclusive b :=
  holds_perm (List.perm_insertionSort _ segs)

theorem holds_carve (segs : List LockSeg) (carved : LockOwnerId) (start stop : UInt64) :
    Holds (carve segs carved start stop) owner exclusive b ↔
      Holds segs owner exclusive b ∧ ¬(owner = carved.view ∧ start ≤ b ∧ b < stop) := by
  induction segs with
  | nil => simp [carve]
  | cons s segs ih =>
    have hcons : carve (s :: segs) carved start stop = carve [s] carved start stop ++ carve segs carved start stop := by
      simp [carve]
    rw [hcons, holds_append, ih, holds_cons, or_and_right]
    refine or_congr ?_ Iff.rfl
    simp only [carve, List.flatMap_cons, List.flatMap_nil, List.append_nil]
    split
    · rename_i hkeep
      simp only [holds_cons, holds_nil, or_false]
      refine ⟨fun h => ⟨h, fun hin => ?_⟩, fun h => h.1⟩
      obtain ⟨rfl, -, hmem⟩ := h
      have hsame : sameOwner s.owner carved = true := sameOwner_iff.mpr hin.1
      simp only [hsame, Bool.not_true, Bool.false_or, Bool.not_eq_true', LockSeg.overlaps, Bool.and_eq_false_iff,
        decide_eq_false_iff_not] at hkeep
      unfold LockSeg.Mem at hmem
      lia
    · rename_i hcut
      simp only [Bool.or_eq_true, Bool.not_eq_true', not_or, Bool.not_eq_false] at hcut
      have hview := sameOwner_iff.mp hcut.1
      simp only [holds_append]
      constructor
      · rintro (h | h)
        · split at h
          · simp only [holds_cons, holds_nil, or_false, LockSeg.Mem] at h
            refine ⟨⟨h.1, h.2.1, h.2.2.1, ?_⟩, ?_⟩
            · have := hcut.2
              simp only [LockSeg.overlaps, Bool.and_eq_true, decide_eq_true_eq] at this
              lia
            · lia
          · simp at h
        · split at h
          · simp only [holds_cons, holds_nil, or_false, LockSeg.Mem] at h
            refine ⟨⟨h.1, h.2.1, ?_, h.2.2.2⟩, ?_⟩
            · have := hcut.2
              simp only [LockSeg.overlaps, Bool.and_eq_true, decide_eq_true_eq] at this
              lia
            · lia
          · simp at h
      · rintro ⟨⟨howner, hmode, hmem⟩, hout⟩
        unfold LockSeg.Mem at hmem
        by_cases hleft : b < start
        · left
          rw [if_pos (by lia)]
          simp only [holds_cons, holds_nil, or_false, LockSeg.Mem]
          exact ⟨howner, hmode, hmem.1, hleft⟩
        · right
          have hstop : ¬b < stop := fun hlt => hout ⟨howner ▸ hview, by lia, hlt⟩
          rw [if_pos (by lia)]
          simp only [holds_cons, holds_nil, or_false, LockSeg.Mem]
          exact ⟨howner, hmode, by lia, hmem.2⟩

theorem mem_fuse {t : LockSeg} (h : t.fusible s = true) : (t.fuse s).Mem b ↔ t.Mem b ∨ s.Mem b := by
  simp only [LockSeg.fusible, Bool.and_eq_true, decide_eq_true_eq] at h
  obtain ⟨⟨-, hleft⟩, hright⟩ := h
  simp only [LockSeg.Mem, LockSeg.fuse]
  split <;> split <;> lia

theorem holds_fuseInto {out' : List LockSeg} (h : fuseInto s out = some out') :
    Holds out' owner exclusive b ↔ Holds (s :: out) owner exclusive b := by
  induction out generalizing out' with
  | nil => simp [fuseInto] at h
  | cons t rest ih =>
    rw [fuseInto] at h
    split at h
    · rename_i hfus
      obtain rfl := Option.some.inj h
      have hmem := mem_fuse (b := b) hfus
      simp only [LockSeg.fusible, Bool.and_eq_true, beq_iff_eq] at hfus
      have hview := sameOwner_iff.mp hfus.1.1.1
      have howner : (t.fuse s).owner = t.owner := rfl
      have hmode : (t.fuse s).exclusive = t.exclusive := rfl
      simp only [holds_cons, hmem, howner, hmode, ← hfus.1.1.2, ← hview]
      tauto
    · obtain ⟨out'', hout, rfl⟩ := Option.map_eq_some_iff.mp h
      have := ih hout
      simp only [holds_cons] at this ⊢
      tauto

theorem holds_coalesceStep :
    Holds (coalesceStep out s) owner exclusive b ↔ Holds (s :: out) owner exclusive b := by
  unfold coalesceStep
  cases h : fuseInto s out with
  | none => rfl
  | some out' => exact holds_fuseInto h

theorem holds_foldl_coalesceStep :
    Holds (segs.foldl coalesceStep out) owner exclusive b ↔ Holds (segs ++ out) owner exclusive b := by
  induction segs generalizing out with
  | nil => rfl
  | cons s segs ih =>
    rw [List.foldl_cons, ih, holds_append, holds_coalesceStep, List.cons_append]
    simp only [holds_cons, holds_append]
    tauto

theorem holds_coalesce :
    Holds (coalesce segs) owner exclusive b ↔ Holds segs owner exclusive b := by
  rw [coalesce, holds_sortByStart, holds_perm (List.reverse_perm _), holds_foldl_coalesceStep, List.append_nil,
    holds_sortByStart]

end Holds

/-! ### Non-empty segments -/

def NonEmpty (segs : List LockSeg) : Prop := ∀ s ∈ segs, s.start < s.stop

theorem nonEmpty_carve {segs : List LockSeg} (h : NonEmpty segs) (owner : LockOwnerId) (start stop : UInt64) :
    NonEmpty (carve segs owner start stop) := by
  intro s hs
  obtain ⟨t, ht, hst⟩ := List.mem_flatMap.mp hs
  split at hst
  · rw [List.mem_singleton] at hst
    exact hst ▸ h t ht
  · simp only [List.mem_append] at hst
    rcases hst with hst | hst <;> split at hst
    · rename_i hlt
      rw [List.mem_singleton] at hst
      simpa [hst] using hlt
    · simp at hst
    · rename_i hlt
      rw [List.mem_singleton] at hst
      simpa [hst] using hlt
    · simp at hst

theorem nonEmpty_fuseInto {s : LockSeg} {out out' : List LockSeg} (hs : s.start < s.stop) (h : NonEmpty out)
    (heq : fuseInto s out = some out') : NonEmpty out' := by
  induction out generalizing out' with
  | nil => simp [fuseInto] at heq
  | cons t rest ih =>
    have ht := h t (List.mem_cons_self ..)
    have hrest : NonEmpty rest := fun r hr => h r (List.mem_cons_of_mem t hr)
    rw [fuseInto] at heq
    split at heq
    · obtain rfl := Option.some.inj heq
      intro r hr
      rcases List.mem_cons.mp hr with rfl | hr
      · simp only [LockSeg.fuse]
        split <;> split <;> lia
      · exact hrest r hr
    · obtain ⟨out'', hout, rfl⟩ := Option.map_eq_some_iff.mp heq
      intro r hr
      rcases List.mem_cons.mp hr with rfl | hr
      · exact ht
      · exact ih hrest hout r hr

theorem nonEmpty_coalesceStep {s : LockSeg} {out : List LockSeg} (hs : s.start < s.stop) (h : NonEmpty out) :
    NonEmpty (coalesceStep out s) := by
  unfold coalesceStep
  cases heq : fuseInto s out with
  | none =>
    intro r hr
    rcases List.mem_cons.mp hr with rfl | hr
    · exact hs
    · exact h r hr
  | some out' => exact nonEmpty_fuseInto hs h heq

theorem nonEmpty_coalesce {segs : List LockSeg} (h : NonEmpty segs) : NonEmpty (coalesce segs) := by
  have hfold : ∀ (l out : List LockSeg), NonEmpty l → NonEmpty out → NonEmpty (l.foldl coalesceStep out) := by
    intro l
    induction l with
    | nil => exact fun out _ hout => hout
    | cons s l ih =>
      intro out hl hout
      exact ih _ (fun r hr => hl r (List.mem_cons_of_mem s hr))
        (nonEmpty_coalesceStep (hl s (List.mem_cons_self ..)) hout)
  intro s hs
  rw [coalesce, sortByStart, List.mem_insertionSort, List.mem_reverse] at hs
  exact hfold _ [] (fun r hr => h r (by simpa [sortByStart] using hr)) (by simp [NonEmpty]) s hs

theorem overlaps_iff_common_byte {s : LockSeg} {start stop : UInt64} (hs : s.start < s.stop) (hrange : start < stop) :
    s.overlaps start stop = true ↔ ∃ b, s.Mem b ∧ start ≤ b ∧ b < stop := by
  simp only [LockSeg.overlaps, Bool.and_eq_true, decide_eq_true_eq, LockSeg.Mem]
  constructor
  · intro h
    by_cases hle : s.start ≤ start
    · exact ⟨start, by lia⟩
    · exact ⟨s.start, by lia⟩
  · rintro ⟨b, hb⟩
    lia

end LightNfs
