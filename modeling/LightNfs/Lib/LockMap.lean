import Mathlib

/-!
# The naive lock map

What a byte-range lock manager is for, with no data structure in it: for every file and every byte, a
partial map from owners to the mode they hold the byte in. The mode is `true` for exclusive. Locking
overwrites the owner's mode on a set of bytes, unlocking erases it, and a lock is refused exactly when
some byte of the set is held by somebody else with at least one of the two sides exclusive.
-/

/-- The mode in which each owner holds each byte of each file. -/
def LockMap (F B O : Type) := F → B → O → Option Bool

namespace LockMap

variable {F B O : Type}

def empty : LockMap F B O := fun _ _ _ => none

variable (n : LockMap F B O)

/-- Some byte of the range is held by another owner, and one of the two sides is exclusive. -/
def Conflict (file : F) (owner : Option O) (range : Set B) (exclusive : Bool) : Prop :=
  ∃ b ∈ range, ∃ other mode, owner ≠ some other ∧ n file b other = some mode ∧ (exclusive || mode) = true

open Classical in
/-- Set the owner's mode on a range of one file. -/
noncomputable def assign (file : F) (owner : O) (range : Set B) (mode : Option Bool) :
    LockMap F B O :=
  fun f b o => if f = file ∧ o = owner ∧ b ∈ range then mode else n f b o

open Classical in
/-- Overwrite the owner's mode on the range, unless that conflicts. -/
noncomputable def lock (file : F) (owner : O) (range : Set B) (exclusive : Bool) :
    LockMap F B O :=
  if n.Conflict file (some owner) range exclusive then n else n.assign file owner range (some exclusive)

/-- `assign` for a range that can be tested, so that the map can be evaluated. -/
def put [DecidableEq F] [DecidableEq O] (file : F) (owner : O) (range : B → Bool)
    (mode : Option Bool) : LockMap F B O :=
  fun f b o => if f = file ∧ o = owner ∧ range b = true then mode else n f b o

theorem put_self [DecidableEq F] [DecidableEq O] (file : F) (owner : O) (range : B → Bool)
    (mode : Option Bool) (b : B) : n.put file owner range mode file b owner = if range b then mode else n file b owner := by
  simp [put]

theorem put_elsewhere [DecidableEq F] [DecidableEq O] {file f : F} {owner o : O} (range : B → Bool)
    (mode : Option Bool) (b : B) (h : (f, o) ≠ (file, owner)) : n.put file owner range mode f b o = n f b o := by
  refine if_neg fun hin => h ?_
  rw [hin.1, hin.2.1]

/-- No byte is held by two owners of which one is exclusive. -/
def Exclusive : Prop :=
  ∀ file b o o' mode mode', o ≠ o' → n file b o = some mode → n file b o' = some mode' →
    mode = false ∧ mode' = false

theorem exclusive_empty : Exclusive (empty : LockMap F B O) := by
  intro file b o o' mode mode' _ h
  exact absurd h (by simp [empty])

theorem exclusive_assign_none {n : LockMap F B O} (h : n.Exclusive) (file : F) (owner : O) (range : Set B) :
    (n.assign file owner range none).Exclusive := by
  intro f b o o' mode mode' hne ho ho'
  simp only [assign] at ho ho'
  split at ho
  · exact absurd ho (by simp)
  · split at ho'
    · exact absurd ho' (by simp)
    · exact h f b o o' mode mode' hne ho ho'

theorem exclusive_lock {n : LockMap F B O} (h : n.Exclusive) (file : F) (owner : O) (range : Set B)
    (exclusive : Bool) : (n.lock file owner range exclusive).Exclusive := by
  unfold lock
  split
  · exact h
  · rename_i hfree
    intro f b o o' mode mode' hne ho ho'
    simp only [assign] at ho ho'
    -- Only the pair of the new owner with an old holder is new, and it was tested for conflict.
    have hnew : ∀ other m, f = file → b ∈ range → other ≠ owner → n f b other = some m →
        exclusive = false ∧ m = false := by
      intro other m hf hb hother hm
      by_contra hcon
      refine hfree ⟨b, hb, other, m, fun heq => hother (Option.some.inj heq).symm, hf ▸ hm, ?_⟩
      cases exclusive <;> cases m <;> simp_all
    split at ho <;> split at ho'
    · rename_i h1 h2
      exact absurd (h1.2.1.trans h2.2.1.symm) hne
    · rename_i h1 h2
      obtain ⟨hf, rfl, hb⟩ := h1
      have := hnew o' mode' hf hb (Ne.symm hne) ho'
      exact ⟨(Option.some.inj ho) ▸ this.1, this.2⟩
    · rename_i h1 h2
      obtain ⟨hf, rfl, hb⟩ := h2
      have := hnew o mode hf hb hne ho
      exact ⟨this.2, (Option.some.inj ho') ▸ this.1⟩
    · exact h f b o o' mode mode' hne ho ho'

end LockMap
