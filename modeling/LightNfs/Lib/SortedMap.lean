import Mathlib

/-!
# Maps with ordered keys

A finite map as the list of its entries in the order of their keys, so that two maps with the same entries are
equal and a walk over the map meets the keys in order.
-/

/-- A finite map, each key bound at most once. -/
@[ext] structure SortedMap (K V : Type) [LinearOrder K] where
  entries : List (K × V)
  sorted : entries.Pairwise (·.1 < ·.1)

namespace SortedMap

variable {K V : Type} [LinearOrder K]

instance [DecidableEq V] : DecidableEq (SortedMap K V) :=
  fun m n => decidable_of_iff (m.entries = n.entries) SortedMap.ext_iff.symm

def empty : SortedMap K V := ⟨[], .nil⟩

def insertEntry (k : K) (v : V) : List (K × V) → List (K × V)
  | [] => [(k, v)]
  | e :: es => if k < e.1 then (k, v) :: e :: es else if k = e.1 then (k, v) :: es else e :: insertEntry k v es

theorem mem_insertEntry {k : K} {v : V} {es : List (K × V)} {e : K × V} (he : e ∈ insertEntry k v es) :
    e = (k, v) ∨ e ∈ es := by
  induction es with
  | nil => exact .inl (List.mem_singleton.1 he)
  | cons f es ih =>
    unfold insertEntry at he
    split at he
    · exact List.mem_cons.1 he
    · split at he
      · exact (List.mem_cons.1 he).imp_right (List.mem_cons_of_mem f)
      · rcases List.mem_cons.1 he with rfl | he
        · exact .inr List.mem_cons_self
        · exact (ih he).imp_right (List.mem_cons_of_mem f)

theorem sorted_insertEntry (k : K) (v : V) {es : List (K × V)} (hes : es.Pairwise (·.1 < ·.1)) :
    (insertEntry k v es).Pairwise (·.1 < ·.1) := by
  induction es with
  | nil => exact List.pairwise_singleton _ _
  | cons f es ih =>
    obtain ⟨hfirst, hrest⟩ := List.pairwise_cons.1 hes
    unfold insertEntry
    split
    case isTrue hlt =>
      refine List.pairwise_cons.2 ⟨fun e he => ?_, hes⟩
      rcases List.mem_cons.1 he with rfl | he
      · exact hlt
      · exact hlt.trans (hfirst e he)
    case isFalse hlt =>
      split
      case isTrue heq => exact List.pairwise_cons.2 ⟨fun e he => heq.trans_lt (hfirst e he), hrest⟩
      case isFalse hne =>
        refine List.pairwise_cons.2 ⟨fun e he => ?_, ih hrest⟩
        rcases mem_insertEntry he with rfl | he
        · exact lt_of_le_of_ne (not_lt.1 hlt) (Ne.symm hne)
        · exact hfirst e he

/-- `m[k] = v`. -/
def put (m : SortedMap K V) (k : K) (v : V) : SortedMap K V := ⟨insertEntry k v m.entries, sorted_insertEntry k v m.sorted⟩

def find (m : SortedMap K V) (k : K) : Option V := (m.entries.find? (·.1 = k)).map (·.2)

/-- The entries whose keys pass the test. -/
def filterKeys (p : K → Bool) (m : SortedMap K V) : SortedMap K V :=
  ⟨m.entries.filter fun e => p e.1, m.sorted.filter _⟩

theorem filterKeys_eq_self {p : K → Bool} {m : SortedMap K V} (h : ∀ e ∈ m.entries, p e.1 = true) :
    m.filterKeys p = m :=
  SortedMap.ext (List.filter_eq_self.2 h)

theorem insertEntry_last {k : K} {es : List (K × V)} (hes : ∀ e ∈ es, e.1 < k) (v : V) :
    insertEntry k v es = es ++ [(k, v)] := by
  induction es with
  | nil => rfl
  | cons f es ih =>
    have hf := hes f List.mem_cons_self
    rw [insertEntry, if_neg hf.not_gt, if_neg hf.ne', ih fun e he => hes e (List.mem_cons_of_mem f he),
      List.cons_append]

end SortedMap
