import Mathlib.Data.Nat.ModEq
import Mathlib.Data.List.Basic
import Mathlib.Logic.Function.Basic
import Mathlib.Tactic.Common
import Mathlib.Tactic.Ring

/-!
# Ring buffers

`ringSlice cells n i m` is what the `m` cells of a ring of `n` cells hold from the index `i` on. A
buffer that keeps its contents in such a slice is a queue: storing behind the slice appends
(`ringSlice_push`), the first cell can be taken off (`ringSlice_succ`), and what lies outside the
slice does not matter (`ringSlice_update_of_outside`).

The queue between two indices `i` and `j` (`ringQueue`) is the slice behind `i` up to `j`: the cell
of `i` is free, so that a full queue and an empty one differ.
-/

namespace LiberaDaq.Memory

variable {α : Type} {n i j m : ℕ} {cells : ℕ → α}

/-! ## Indices -/

/-- The distance from one index of a ring to another, going forward. -/
def ringDist (n i j : ℕ) : ℕ := (j + n - i) % n

theorem ringDist_lt (hn : 0 < n) : ringDist n i j < n := Nat.mod_lt _ hn

/-- The index at a distance. -/
theorem add_ringDist (hi : i < n) (hj : j < n) : (i + ringDist n i j) % n = j := by
  unfold ringDist
  rw [Nat.add_mod_mod]
  have hsum : i + (j + n - i) = j + n := by omega
  rw [hsum, Nat.add_mod_right, Nat.mod_eq_of_lt hj]

/-- The distance to an index that is less than a round away. -/
theorem ringDist_add (hi : i < n) (hm : m < n) : ringDist n i ((i + m) % n) = m := by
  unfold ringDist
  by_cases hwrap : i + m < n
  · rw [Nat.mod_eq_of_lt hwrap]
    have hsum : i + m + n - i = m + n := by omega
    rw [hsum, Nat.add_mod_right, Nat.mod_eq_of_lt hm]
  · have hmod : (i + m) % n = i + m - n := by
      rw [Nat.mod_eq_sub_mod (by omega), Nat.mod_eq_of_lt (by omega)]
    rw [hmod]
    have hsum : i + m - n + n - i = m := by omega
    rw [hsum, Nat.mod_eq_of_lt hm]

/-- Two indices that are less than a round away from a third are the same at the same distance
alone. -/
theorem add_mod_inj (hj : j < n) (hm : m < n) (h : (i + j) % n = (i + m) % n) : j = m := by
  have hmod : j ≡ m [MOD n] := Nat.ModEq.add_left_cancel' i h
  rwa [Nat.ModEq, Nat.mod_eq_of_lt hj, Nat.mod_eq_of_lt hm] at hmod

theorem ringDist_self : ringDist n i i = 0 := by
  rw [ringDist, Nat.add_sub_cancel_left, Nat.mod_self]

theorem ringDist_eq_zero_iff (hi : i < n) (hj : j < n) : ringDist n i j = 0 ↔ j = i := by
  constructor
  · intro h
    have hj' := add_ringDist hi hj
    rwa [h, Nat.add_zero, Nat.mod_eq_of_lt hi, eq_comm] at hj'
  · rintro rfl
    exact ringDist_self

/-- The next index, from the distance. -/
theorem next_eq_add (hi : i < n) (hj : j < n) : (j + 1) % n = (i + (ringDist n i j + 1)) % n := by
  conv_lhs => rw [← add_ringDist hi hj, Nat.mod_add_mod]
  rw [Nat.add_assoc]

/-- The next index is the first one when a round is complete. -/
theorem next_eq_iff (hi : i < n) (hj : j < n) : (j + 1) % n = i ↔ ringDist n i j + 1 = n := by
  have hlt : ringDist n i j < n := ringDist_lt (by omega)
  constructor
  · intro h
    by_contra hne
    have hself : (i + (ringDist n i j + 1)) % n = (i + 0) % n := by
      rw [← next_eq_add hi hj, h, Nat.add_zero, Nat.mod_eq_of_lt hi]
    have hzero := add_mod_inj (by omega) (by omega) hself
    omega
  · intro h
    rw [next_eq_add hi hj, h, Nat.add_mod_right, Nat.mod_eq_of_lt hi]

theorem ringDist_next (hi : i < n) (hj : j < n) (h : (j + 1) % n ≠ i) :
    ringDist n i ((j + 1) % n) = ringDist n i j + 1 := by
  have hlt : ringDist n i j < n := ringDist_lt (by omega)
  have hne : ringDist n i j + 1 ≠ n := fun hn => h ((next_eq_iff hi hj).2 hn)
  rw [next_eq_add hi hj, ringDist_add hi (by omega)]

/-! ## Slices -/

/-- The contents of `m` cells from an index on. -/
def ringSlice (cells : ℕ → α) (n i m : ℕ) : List α :=
  (List.range m).map fun k => cells ((i + k) % n)

@[simp] theorem ringSlice_zero : ringSlice cells n i 0 = [] := rfl

@[simp] theorem length_ringSlice : (ringSlice cells n i m).length = m := by simp [ringSlice]

/-- The first cell of a slice. -/
theorem ringSlice_succ : ringSlice cells n i (m + 1) =
    cells (i % n) :: ringSlice cells n (i + 1) m := by
  simp only [ringSlice, List.range_succ_eq_map, List.map_cons, List.map_map, Nat.add_zero]
  congr 1
  apply List.map_congr_left
  intro k _
  simp only [Function.comp_apply, Nat.succ_eq_add_one]
  congr 2
  omega

/-- The last cell of a slice. -/
theorem ringSlice_concat : ringSlice cells n i (m + 1) =
    ringSlice cells n i m ++ [cells ((i + m) % n)] := by
  simp [ringSlice, List.range_succ]

/-- A slice in two parts. -/
theorem ringSlice_add {m' : ℕ} : ringSlice cells n i (m + m') =
    ringSlice cells n i m ++ ringSlice cells n (i + m) m' := by
  simp [ringSlice, List.range_add, Nat.add_assoc]

/-- The index of a slice counts modulo the size of the ring. -/
theorem ringSlice_mod : ringSlice cells n (i % n) m = ringSlice cells n i m := by
  simp [ringSlice]

/-- A cell outside the slice does not matter. -/
theorem ringSlice_update_of_outside {a : α} (h : ∀ k < m, (i + k) % n ≠ j) :
    ringSlice (Function.update cells j a) n i m = ringSlice cells n i m := by
  apply List.map_congr_left
  intro k hk
  exact Function.update_of_ne (h k (List.mem_range.1 hk)) a cells

/-- What is stored behind the slice is appended to it. -/
theorem ringSlice_push {a : α} (hm : m < n) :
    ringSlice (Function.update cells ((i + m) % n) a) n i (m + 1) =
      ringSlice cells n i m ++ [a] := by
  rw [ringSlice_concat, Function.update_self, ringSlice_update_of_outside]
  intro k hk h
  have heq := add_mod_inj (hk.trans hm) hm h
  omega

/-! ## Walks -/

/-- The indices of `m` steps of the same width, from an index on. -/
def ringWalk (n i step m : ℕ) : List ℕ := (List.range m).map fun k => (i + k * step) % n

/-- The contents of the cells behind `i`, up to and with `j`. -/
def ringQueue (cells : ℕ → α) (n i j : ℕ) : List α := ringSlice cells n (i + 1) (ringDist n i j)

@[simp] theorem length_ringQueue : (ringQueue cells n i j).length = ringDist n i j :=
  length_ringSlice

theorem ringQueue_self : ringQueue cells n i i = [] := by
  rw [ringQueue, ringDist_self, ringSlice_zero]

/-- What is stored in the next cell is appended, unless the queue is full. -/
theorem ringQueue_put {a : α} (hi : i < n) (hj : j < n) (h : (j + 1) % n ≠ i) :
    ringQueue (Function.update cells ((j + 1) % n) a) n i ((j + 1) % n) =
      ringQueue cells n i j ++ [a] := by
  have hindex : (j + 1) % n = (i + 1 + ringDist n i j) % n := by
    rw [next_eq_add hi hj]
    congr 1
    omega
  rw [ringQueue, ringDist_next hi hj h, hindex, ringSlice_push (ringDist_lt (by omega))]
  rfl

/-- The first cell of a queue that is not empty. -/
theorem ringQueue_get (hi : i < n) (hj : j < n) (h : j ≠ i) : ringQueue cells n i j =
    cells ((i + 1) % n) :: ringQueue cells n ((i + 1) % n) j := by
  obtain ⟨m, hm⟩ := Nat.exists_eq_succ_of_ne_zero fun h0 => h ((ringDist_eq_zero_iff hi hj).1 h0)
  have hlt : ringDist n i j < n := ringDist_lt (by omega)
  have hj' : j = ((i + 1) % n + m) % n := by
    conv_lhs => rw [← add_ringDist hi hj, hm]
    rw [Nat.mod_add_mod]
    congr 1
    omega
  have hdist : ringDist n ((i + 1) % n) j = m := by
    conv_lhs => rw [hj']
    exact ringDist_add (Nat.mod_lt _ (by omega)) (by omega)
  rw [ringQueue, hm, Nat.succ_eq_add_one, ringSlice_succ, ringQueue, hdist]
  congr 1
  rw [← ringSlice_mod (i := (i + 1) % n + 1), Nat.mod_add_mod, ringSlice_mod]

end LiberaDaq.Memory
