import Mathlib

/-!
# Finite tables

A hash map with unique keys, as Mathlib's `AList` over a constant family. The wrappers fix one
spelling for the three operations a C++ `unordered_map` is used through, and their lookup lemmas are
stated as one conditional each, so that a proof about a sequence of updates is a case split on keys.
-/

/-- A finite map from keys to values, each key bound at most once. -/
abbrev Table (K V : Type) := AList fun _ : K => V

namespace Table

variable {K V : Type} [DecidableEq K]
variable (t : Table K V) (k : K)

def find (k : K) : Option V := AList.lookup k t

def put (k : K) (v : V) : Table K V := AList.insert k v t

def remove (k : K) : Table K V := AList.erase k t

def mapVals (f : K → V → V) (t : Table K V) : Table K V where
  entries := t.entries.map fun e => ⟨e.1, f e.1 e.2⟩
  nodupKeys := by
    have hkeys : (t.entries.map fun e => (⟨e.1, f e.1 e.2⟩ : Sigma fun _ : K => V)).keys = t.entries.keys := by
      simp [List.keys, Function.comp_def]
    rw [List.NodupKeys, hkeys]
    exact t.nodupKeys

def any (p : K → V → Bool) (t : Table K V) : Bool := t.entries.any fun e => p e.1 e.2

def removeIf (p : V → Bool) (t : Table K V) : Table K V where
  entries := t.entries.filter fun e => !p e.2
  nodupKeys := List.Nodup.sublist (List.Sublist.map _ List.filter_sublist) t.nodupKeys

@[simp] theorem find_empty : find (∅ : Table K V) k = none := rfl

theorem mem_keys_of_find {t : Table K V} {k : K} {v : V} (h : t.find k = some v) : k ∈ t.keys :=
  AList.mem_keys.mp (AList.lookup_isSome.mp (by rw [show AList.lookup k t = some v from h, Option.isSome_some]))

@[simp, grind =] theorem find_put (k k' : K) (v : V) :
    (t.put k v).find k' = if k' = k then some v else t.find k' := by
  by_cases h : k' = k
  · subst h
    rw [if_pos rfl]
    exact AList.lookup_insert t
  · rw [if_neg h]
    exact AList.lookup_insert_ne h

@[simp, grind =] theorem find_remove (k k' : K) :
    (t.remove k).find k' = if k' = k then none else t.find k' := by
  by_cases h : k' = k
  · subst h
    rw [if_pos rfl]
    exact AList.lookup_erase k' t
  · rw [if_neg h]
    exact AList.lookup_erase_ne h

theorem find_of_mem {t : Table K V} {e : Sigma fun _ : K => V} (he : e ∈ t.entries) : t.find e.1 = some e.2 :=
  AList.mem_lookup_iff.mpr he

theorem any_iff (p : K → V → Bool) (t : Table K V) : t.any p = true ↔ ∃ k v, t.find k = some v ∧ p k v = true := by
  rw [any, List.any_eq_true]
  constructor
  · rintro ⟨e, he, hp⟩
    exact ⟨e.1, e.2, find_of_mem he, hp⟩
  · rintro ⟨k, v, hfind, hp⟩
    exact ⟨⟨k, v⟩, AList.mem_lookup_iff.mp hfind, hp⟩

@[simp, grind =] theorem find_mapVals (f : K → V → V) (t : Table K V) (k : K) :
    (t.mapVals f).find k = (t.find k).map (f k) := by
  have hmem : ∀ v, v ∈ (t.mapVals f).find k ↔ v ∈ (t.find k).map (f k) := by
    intro v
    rw [find, AList.mem_lookup_iff, Option.mem_def, Option.map_eq_some_iff]
    constructor
    · intro hv
      obtain ⟨e, he, heq⟩ := List.mem_map.mp hv
      cases heq
      exact ⟨e.2, find_of_mem he, rfl⟩
    · rintro ⟨w, hw, rfl⟩
      exact List.mem_map.mpr ⟨⟨k, w⟩, AList.mem_lookup_iff.mp hw, rfl⟩
  exact Option.ext hmem

/-! ### Lookups as functions -/

theorem find_put_update (v : V) : (t.put k v).find = Function.update t.find k (some v) := by
  funext k'
  rw [find_put, Function.update_apply]

theorem find_remove_update : (t.remove k).find = Function.update t.find k none := by
  funext k'
  rw [find_remove, Function.update_apply]

theorem getD_put_update (v d : V) :
    (fun k' => ((t.put k v).find k').getD d) = Function.update (fun k' => (t.find k').getD d) k v := by
  funext k'
  rw [find_put, Function.update_apply]
  split <;> rfl

theorem getD_remove_update (d : V) :
    (fun k' => ((t.remove k).find k').getD d) = Function.update (fun k' => (t.find k').getD d) k d := by
  funext k'
  rw [find_remove, Function.update_apply]
  split <;> rfl

theorem map_put_update {W : Type} (g : V → W) (t : Table K V) (k : K) (v : V) :
    (fun k' => ((t.put k v).find k').map g) = Function.update (fun k' => (t.find k').map g) k (some (g v)) := by
  funext k'
  rw [find_put, Function.update_apply]
  split <;> rfl

theorem map_remove_update {W : Type} (g : V → W) (t : Table K V) (k : K) :
    (fun k' => ((t.remove k).find k').map g) = Function.update (fun k' => (t.find k').map g) k none := by
  funext k'
  rw [find_remove, Function.update_apply]
  split <;> rfl

theorem find_removeIf (p : V → Bool) (t : Table K V) (k : K) :
    (t.removeIf p).find k = (t.find k).filter fun v => !p v := by
  have hmem : ∀ v, v ∈ (t.removeIf p).find k ↔ v ∈ (t.find k).filter fun v => !p v := by
    intro v
    rw [Option.mem_filter_iff]
    simp only [find]
    rw [AList.mem_lookup_iff, AList.mem_lookup_iff]
    simp [removeIf]
  exact Option.ext hmem

/-! ### Sums over the entries -/

def size : Nat := t.entries.length

def total (f : V → Nat) (t : Table K V) : Nat := (t.entries.map fun e => f e.2).sum

omit [DecidableEq K] in
theorem size_eq_total : t.size = t.total fun _ => 1 := by simp [size, total]

theorem total_eq (f : V → Nat) (t : Table K V) (k : K) : t.total f = ((t.find k).map f).getD 0 + (t.remove k).total f := by
  cases hfind : t.find k with
  | none =>
    have habsent : k ∉ t.entries.keys := by
      rw [← List.dlookup_isSome]
      simpa [find, AList.lookup] using hfind
    show _ = 0 + ((List.kerase k t.entries).map fun e => f e.2).sum
    rw [List.kerase_of_notMem_keys habsent, Nat.zero_add, total]
  | some v =>
    obtain ⟨w, l, l', hl, hentries, hrest⟩ := List.exists_of_kerase (mem_keys_of_find hfind)
    have hv : w = v := by
      have hmem : (⟨k, w⟩ : Sigma fun _ : K => V) ∈ t.entries := by rw [hentries]; simp
      simpa [hfind] using (find_of_mem hmem).symm
    show (t.entries.map fun e => f e.2).sum = f v + ((List.kerase k t.entries).map fun e => f e.2).sum
    rw [hrest, hentries, hv]
    simp only [List.map_append, List.map_cons, List.sum_append, List.sum_cons]
    omega

theorem total_put (f : V → Nat) (t : Table K V) (k : K) (v : V) : (t.put k v).total f = f v + (t.remove k).total f := by
  show ((List.kinsert k v t.entries).map fun e => f e.2).sum = f v + ((List.kerase k t.entries).map fun e => f e.2).sum
  rw [List.kinsert_def, List.map_cons, List.sum_cons]

end Table
