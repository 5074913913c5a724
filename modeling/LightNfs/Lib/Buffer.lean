import Mathlib

/-!
# Buffers

A buffer is a function from positions to cells. Writing a list at an offset and reading a slice back.
-/

namespace Buffer

variable {α : Type}

def slice (buf : Nat → α) (off n : Nat) : List α := (List.range n).map fun i => buf (off + i)

def fill (buf : Nat → α) (off : Nat) (xs : List α) : Nat → α :=
  fun i => if off ≤ i then (xs[i - off]?).getD (buf i) else buf i

@[simp] theorem slice_zero (buf : Nat → α) (off : Nat) : slice buf off 0 = [] := rfl

@[simp] theorem length_slice (buf : Nat → α) (off n : Nat) : (slice buf off n).length = n := by simp [slice]

theorem slice_add (buf : Nat → α) (off n m : Nat) :
    slice buf off (n + m) = slice buf off n ++ slice buf (off + n) m := by
  simp [slice, List.range_add, Nat.add_assoc]

theorem slice_fill_self (buf : Nat → α) (off : Nat) (xs : List α) : slice (fill buf off xs) off xs.length = xs := by
  apply List.ext_getElem
  · simp
  · intro i hi hi'
    simp [slice, fill, hi']

theorem slice_fill_below (buf : Nat → α) (off : Nat) (xs : List α) : slice (fill buf off xs) 0 off = slice buf 0 off := by
  apply List.map_congr_left
  intro i hi
  have hlt : ¬off ≤ 0 + i := by simpa using hi
  simp only [fill, if_neg hlt]

end Buffer
