import Mathlib.Data.List.Basic
import Mathlib.Data.List.Range
import Mathlib.Tactic.Common

/-!
# Copying cells

A block of memory is a function from offsets to cells, a pointer into another block likewise.

* `copy`: copy `n` cells to an offset; `read`: the cells of a region; `ofList`: a list as a block;
* `copy_inside`, `copy_outside`, `read_copy`, `read_copy_of_disjoint`: what a copy writes;
* **`read_tile`**, `tile_outside`: two copies, the second over the end of the first.
-/

namespace Bytes

variable {α : Type} {dst src src' : ℕ → α} {off off' n n' m i : ℕ}

/-- The cells of `dst` after the first `n` cells of `src` were copied to the offset `off`. -/
def copy (dst : ℕ → α) (off : ℕ) (src : ℕ → α) (n : ℕ) : ℕ → α :=
  fun i => if off ≤ i ∧ i < off + n then src (i - off) else dst i

/-- The `n` cells from `off` on. -/
def read (m : ℕ → α) (off n : ℕ) : List α := (List.range n).map fun i => m (off + i)

/-- A list as a block, with `d` after its end. -/
def ofList (d : α) (l : List α) : ℕ → α := fun i => l.getD i d

theorem copy_inside (h : i < n) : copy dst off src n (off + i) = src i := by
  rw [copy, if_pos (by omega), Nat.add_sub_cancel_left]

theorem copy_outside (h : i < off ∨ off + n ≤ i) : copy dst off src n i = dst i :=
  if_neg (by omega)

theorem read_congr {a b : ℕ → α} (h : ∀ i < n, a (off + i) = b (off' + i)) :
    read a off n = read b off' n :=
  List.map_congr_left fun i hi => h i (List.mem_range.mp hi)

theorem length_read (m : ℕ → α) (off n : ℕ) : (read m off n).length = n := by
  rw [read, List.length_map, List.length_range]

/-- What was copied is there. -/
theorem read_copy : read (copy dst off src n) off n = read src 0 n :=
  read_congr fun i hi => by rw [copy_inside hi, Nat.zero_add]

/-- A copy leaves other regions alone. -/
theorem read_copy_of_disjoint (h : off' + n' ≤ off ∨ off + n ≤ off') :
    read (copy dst off src n) off' n' = read dst off' n' :=
  read_congr fun i hi => copy_outside (by omega)

theorem read_ofList (d : α) (l : List α) : read (ofList d l) 0 l.length = l := by
  refine List.ext_getElem (length_read _ _ _) fun i hi hi' => ?_
  simp [read, ofList, hi']

theorem read_add (m : ℕ → α) (off n n' : ℕ) :
    read m off (n + n') = read m off n ++ read m (off + n) n' := by
  rw [read, List.range_add, List.map_append, List.map_map]
  congr 1
  refine List.map_congr_left fun i _ => ?_
  rw [Function.comp_apply, Nat.add_assoc]

/-- **Two copies tile a region**: the second, of `n'` cells, starts `m` cells after the first, and
covers what the first has too much. -/
theorem read_tile (h : m ≤ n) :
    read (copy (copy dst off src n) (off + m) src' n') off (m + n') =
      read src 0 m ++ read src' 0 n' := by
  rw [read_add, read_copy, read_copy_of_disjoint (.inl le_rfl)]
  congr 1
  exact read_congr fun i hi => by rw [copy_inside (by omega), Nat.zero_add]

theorem tile_outside (hn : n ≤ m + n') (hi : i < off ∨ off + (m + n') ≤ i) :
    copy (copy dst off src n) (off + m) src' n' i = dst i := by
  rw [copy_outside (by omega), copy_outside (by omega)]

end Bytes
