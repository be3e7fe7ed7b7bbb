import Mathlib.Data.List.Basic
import Mathlib.Data.List.Nodup
import Mathlib.Logic.Function.Basic
import Mathlib.Order.CompletePartialOrder
import Mathlib.Order.Interval.Set.Disjoint

/-!
# Free lists

A list that is threaded through cells: `next` gives the cell after each one, and
`Threaded next head ps` says that the cells from the pointer `head` on are those of `ps`, up to a
null pointer. The pointer determines the cells (`Threaded.unique`), and there is no cycle
(`Threaded.nodup`). A cell is pushed by `Threaded.push`, and a row of cells is linked by
`threaded_row`.

The second part is about the bytes of regions of memory.
-/

namespace LiberaDaq.Memory

variable {P : Type} {next next' : P → Option P} {head : Option P} {p : P} {ps qs : List P}

/-- The cells from a pointer on. -/
inductive Threaded (next : P → Option P) : Option P → List P → Prop
  | nil : Threaded next none []
  | cons {p : P} {ps : List P} : Threaded next (next p) ps → Threaded next (some p) (p :: ps)

@[simp] theorem threaded_none : Threaded next none ps ↔ ps = [] := by
  refine ⟨fun h => ?_, fun h => h ▸ .nil⟩
  cases h
  rfl

@[simp] theorem threaded_some :
    Threaded next (some p) ps ↔ ∃ qs, ps = p :: qs ∧ Threaded next (next p) qs := by
  constructor
  · intro h
    cases h with
    | cons h => exact ⟨_, rfl, h⟩
  · rintro ⟨qs, rfl, h⟩
    exact .cons h

theorem Threaded.unique (h : Threaded next head ps) (h' : Threaded next head qs) : ps = qs := by
  induction h generalizing qs with
  | nil => exact (threaded_none.1 h').symm
  | cons _ ih =>
    obtain ⟨rs, rfl, hrs⟩ := threaded_some.1 h'
    rw [ih hrs]

/-- The cells from one of the cells on. -/
theorem Threaded.suffix (h : Threaded next head ps) (hs : p :: qs <:+ ps) :
    Threaded next (some p) (p :: qs) := by
  induction h with
  | nil => simp at hs
  | cons h ih =>
    rcases List.suffix_cons_iff.1 hs with he | hs
    · obtain ⟨rfl, rfl⟩ := List.cons.inj he
      exact .cons h
    · exact ih hs

/-- **A list that ends has no cycle.** -/
theorem Threaded.nodup (h : Threaded next head ps) : ps.Nodup := by
  induction h with
  | nil => exact List.nodup_nil
  | @cons p ps h ih =>
    refine List.nodup_cons.2 ⟨fun hp => ?_, ih⟩
    obtain ⟨qs, rs, rfl⟩ := List.append_of_mem hp
    -- the cells from the second `p` on are those from the first one on
    have hlater : Threaded next (some p) (p :: rs) := h.suffix ⟨qs, rfl⟩
    have hsame := congrArg List.length (hlater.unique (.cons h))
    simp only [List.length_cons, List.length_append] at hsame
    omega

/-- The list is the same where its cells are. -/
theorem Threaded.congr (h : Threaded next head ps) (hn : ∀ p ∈ ps, next' p = next p) :
    Threaded next' head ps := by
  induction h with
  | nil => exact .nil
  | @cons p ps _ ih =>
    have hp := hn p List.mem_cons_self
    refine .cons ?_
    rw [hp]
    exact ih fun q hq => hn q (List.mem_cons_of_mem p hq)

/-- Pushing a cell that is linked to the first one. -/
theorem Threaded.push (h : Threaded next head ps) (hp : next' p = head)
    (hn : ∀ q ∈ ps, next' q = next q) : Threaded next' (some p) (p :: ps) := by
  refine .cons ?_
  rw [hp]
  exact h.congr hn

/-- The cells `f k`, `f (k + 1)` and so on, `n` in all, each linked to the one after it. -/
theorem threaded_row {f : ℕ → P} {k n : ℕ} (hn : 0 < n)
    (hlink : ∀ i, k ≤ i → i + 1 < k + n → next (f i) = some (f (i + 1)))
    (hlast : next (f (k + n - 1)) = none) :
    Threaded next (some (f k)) ((List.range' k n).map f) := by
  induction n generalizing k with
  | zero => exact absurd hn (Nat.lt_irrefl 0)
  | succ n ih =>
    rw [List.range'_succ, List.map_cons]
    refine .cons ?_
    rcases Nat.eq_zero_or_pos n with rfl | hpos
    · rw [show k + (0 + 1) - 1 = k by omega] at hlast
      rw [hlast]
      exact .nil
    · rw [hlink k le_rfl (by omega)]
      refine ih hpos (fun i hi hlt => hlink i (by omega) (by omega)) ?_
      rwa [show k + 1 + n - 1 = k + (n + 1) - 1 by omega]

/-! ## Regions -/

/-- The bytes of a region, by its address and its size. -/
def bytesAt (a n : ℕ) : Set ℕ := Set.Ico a (a + n)

variable {a b m n : ℕ}

theorem disjoint_bytes : Disjoint (bytesAt a m) (bytesAt b n) ↔ min (a + m) (b + n) ≤ max a b :=
  Set.Ico_disjoint_Ico

theorem bytes_subset (hb : b ≤ a) (hn : a + m ≤ b + n) : bytesAt a m ⊆ bytesAt b n :=
  Set.Ico_subset_Ico hb hn

/-- Regions of different cells in a row. -/
theorem disjoint_bytes_row {i j : ℕ} (h : i ≠ j) :
    Disjoint (bytesAt (a + i * n) n) (bytesAt (a + j * n) n) := by
  rw [disjoint_bytes]
  rcases Nat.lt_or_gt_of_ne h with h | h
  · have hmul : (i + 1) * n ≤ j * n := Nat.mul_le_mul_right n h
    rw [Nat.succ_mul] at hmul
    omega
  · have hmul : (j + 1) * n ≤ i * n := Nat.mul_le_mul_right n h
    rw [Nat.succ_mul] at hmul
    omega

/-- Regions with a byte each that are disjoint begin at different addresses. -/
theorem ne_of_disjoint_bytes (h : Disjoint (bytesAt a m) (bytesAt b n)) (hm : 0 < m) (hn : 0 < n) :
    a ≠ b := by
  rintro rfl
  rw [disjoint_bytes] at h
  omega

end LiberaDaq.Memory
