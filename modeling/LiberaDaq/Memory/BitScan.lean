import Mathlib.Data.List.Basic
import Mathlib.Data.BitVec

/-!
# The scan of a bit vector

A loop over the bits of a word that are set: an index and a mask with one bit are shifted together
to the next bit that is set (`seek`), the bit is cleared, and the body is run for it; the index and
the mask stay where they are (`scan`). The loop ends when no bit of `vector` is set. Both recursions
have a fuel, and say `none` when there is not enough of it.

When the vector has `n` bits from `lo` on and the scan starts at the first of them, the body is run
once for each bit that is set, in ascending order (`scan_eq`).
-/

namespace LiberaDaq.Memory

variable {w : ℕ} {σ : Type}

/-- Shift the mask and the index to the next bit of the word that is set. -/
def seek : ℕ → BitVec w → BitVec w → ℕ → Option (BitVec w × ℕ)
  | 0, _, _, _ => none
  | fuel + 1, x, m, i => if x &&& m ≠ 0 then some (m, i) else seek fuel x (m <<< 1) (i + 1)

/-- Run the body for the bits that are set, as long as one of the vector is. -/
def scan (vector : BitVec w) (body : σ → BitVec w → ℕ → σ) :
    ℕ → BitVec w → BitVec w → ℕ → σ → Option σ
  | 0, _, _, _, _ => none
  | fuel + 1, x, m, i, s =>
    if x &&& vector ≠ 0 then
      (seek (fuel + 1) x m i).bind fun r =>
        scan vector body fuel (x &&& ~~~r.1) r.1 r.2 (body s r.1 r.2)
    else some s

/-- The bits that are set, of the `n` from `lo` on, by their index in these. -/
def bitsFrom (lo n : ℕ) (x : BitVec w) (i : ℕ) : List ℕ :=
  (List.range' i (n - i)).filter fun j => x.getLsbD (lo + j)

/-! ## One bit -/

/-- The mask with one bit. -/
def bitMask (w k : ℕ) : BitVec w := 1#w <<< k

theorem getLsbD_bitMask {k j : ℕ} (hk : k < w) : (bitMask w k).getLsbD j = decide (j = k) := by
  have hw : 0 < w := by omega
  simp only [bitMask, BitVec.getLsbD_shiftLeft, BitVec.getLsbD_one, hw]
  by_cases h : j = k
  · subst h
    simp [hk]
  · have hbits : ¬(¬j < k ∧ j - k = 0) := by omega
    simp only [decide_true, Bool.true_and, h, decide_false]
    rcases Nat.lt_or_ge j k with hlt | hge
    · simp [hlt]
    · have : j - k ≠ 0 := by omega
      simp [this]

theorem bitMask_shl (w k : ℕ) : bitMask w k <<< 1 = bitMask w (k + 1) := by
  rw [bitMask, bitMask, BitVec.shiftLeft_add]

theorem and_bitMask_ne_zero_iff {x : BitVec w} {k : ℕ} (hk : k < w) :
    x &&& bitMask w k ≠ 0 ↔ x.getLsbD k = true := by
  constructor
  · intro h
    by_contra hbit
    apply h
    ext j hj
    rw [BitVec.getElem_and, ← BitVec.getLsbD_eq_getElem, ← BitVec.getLsbD_eq_getElem,
      getLsbD_bitMask hk]
    by_cases hjk : j = k
    · subst hjk
      simp [hbit]
    · simp [hjk]
  · intro hbit h
    have hzero := congrArg (BitVec.getLsbD · k) h
    simp [getLsbD_bitMask hk, hbit] at hzero

/-! ## The scan -/

variable {lo n i j fuel : ℕ} {x vector : BitVec w} {body : σ → BitVec w → ℕ → σ} {s : σ}

/-- The mask moves to the first bit that is set. -/
theorem seek_eq {d : ℕ} (hw : lo + i + d < w) (hset : x.getLsbD (lo + i + d) = true)
    (hclear : ∀ e < d, x.getLsbD (lo + i + e) = false) (hfuel : d < fuel) :
    seek fuel x (bitMask w (lo + i)) i = some (bitMask w (lo + i + d), i + d) := by
  induction d generalizing i fuel with
  | zero =>
    obtain ⟨fuel, rfl⟩ : ∃ k, fuel = k + 1 := ⟨fuel - 1, by omega⟩
    have hbit : x &&& bitMask w (lo + i) ≠ 0 := (and_bitMask_ne_zero_iff hw).2 hset
    rw [seek, if_pos hbit]
    rfl
  | succ d ih =>
    obtain ⟨fuel, rfl⟩ : ∃ k, fuel = k + 1 := ⟨fuel - 1, by omega⟩
    have hbit : ¬x &&& bitMask w (lo + i) ≠ 0 := by
      rw [and_bitMask_ne_zero_iff (by omega)]
      simpa using hclear 0 (by omega)
    rw [seek, if_neg hbit, bitMask_shl]
    have hnext : lo + i + 1 = lo + (i + 1) := by omega
    have hsum : lo + i + (d + 1) = lo + (i + 1) + d := by omega
    rw [hsum] at hw hset ⊢
    rw [hnext, ih hw hset (fun e he => ?_) (by omega)]
    · rw [show i + 1 + d = i + (d + 1) by omega]
    · have := hclear (e + 1) (by omega)
      rwa [show lo + i + (e + 1) = lo + (i + 1) + e by omega] at this

/-- A word has a bit of the vector when one of the bits from `lo` on is set. -/
theorem and_vector_eq_zero (hw : lo + n ≤ w)
    (hvector : ∀ j < w, vector.getLsbD j = decide (lo ≤ j ∧ j < lo + n)) :
    x &&& vector = 0 ↔ ∀ j < n, x.getLsbD (lo + j) = false := by
  constructor
  · intro h j hj
    have hzero := congrArg (BitVec.getLsbD · (lo + j)) h
    have hin : lo ≤ lo + j ∧ lo + j < lo + n := ⟨by omega, by omega⟩
    simpa [hvector (lo + j) (by omega), hin, hj] using hzero
  · intro h
    ext j hj
    rw [BitVec.getElem_and, ← BitVec.getLsbD_eq_getElem, ← BitVec.getLsbD_eq_getElem, hvector j hj]
    by_cases hin : lo ≤ j ∧ j < lo + n
    · obtain ⟨k, rfl⟩ : ∃ k, j = lo + k := ⟨j - lo, by omega⟩
      simp [h k (by omega)]
    · simp [hin]

/-- A bit of a word without the bit `j`. -/
theorem getLsbD_and_not_bitMask {k : ℕ} (hj : lo + j < w) (hk : lo + k < w) :
    (x &&& ~~~bitMask w (lo + j)).getLsbD (lo + k) = (x.getLsbD (lo + k) && decide (k ≠ j)) := by
  rw [BitVec.getLsbD_and, BitVec.getLsbD_not, getLsbD_bitMask hj]
  simp [hk]

/-- The bits that come after the first one are those of the word without it. -/
theorem bitsFrom_cons {js : List ℕ} (hw : lo + n ≤ w) (h : bitsFrom lo n x i = j :: js) :
    i ≤ j ∧ j < n ∧ x.getLsbD (lo + j) = true ∧ (∀ k, i ≤ k → k < j → x.getLsbD (lo + k) = false) ∧
      bitsFrom lo n (x &&& ~~~bitMask w (lo + j)) j = js := by
  obtain ⟨before, after, hsplit, hbefore, hset, hafter⟩ := List.filter_eq_cons_iff.1 h
  obtain ⟨d, hd, rfl, hrest⟩ := List.range'_eq_append_iff.1 hsplit
  obtain ⟨hj, hpos, rfl⟩ := List.range'_eq_cons_iff.1 hrest.symm
  have hlt : j < n := by omega
  refine ⟨by omega, hlt, hset, fun k hik hkj => ?_, ?_⟩
  · have hmem : k ∈ List.range' i d 1 := List.mem_range'_1.2 ⟨hik, by omega⟩
    simpa using hbefore k hmem
  · have hlength : n - j = n - i - d - 1 + 1 := by omega
    have hcleared : (x &&& ~~~bitMask w (lo + j)).getLsbD (lo + j) = false := by
      rw [getLsbD_and_not_bitMask (by omega) (by omega)]
      simp
    rw [bitsFrom, hlength, List.range'_succ, List.filter_cons, hcleared, if_neg nofun, ← hafter]
    refine List.filter_congr fun k hk => ?_
    have hbounds := List.mem_range'_1.1 hk
    have hne : k ≠ j := by omega
    rw [getLsbD_and_not_bitMask (by omega) (by omega)]
    simp [hne]

theorem bitsFrom_eq_nil_iff :
    bitsFrom lo n x i = [] ↔ ∀ k, i ≤ k → k < n → x.getLsbD (lo + k) = false := by
  rw [bitsFrom, List.filter_eq_nil_iff]
  constructor
  · intro h k hik hkn
    simpa using h k (List.mem_range'_1.2 ⟨hik, by omega⟩)
  · intro h k hk
    have hbounds := List.mem_range'_1.1 hk
    simp [h k hbounds.1 (by omega)]

/-- The scan from a position before which no bit of the vector is set. -/
theorem scan_from {js : List ℕ} (hw : lo + n ≤ w)
    (hvector : ∀ j < w, vector.getLsbD j = decide (lo ≤ j ∧ j < lo + n))
    (hbelow : ∀ k < i, x.getLsbD (lo + k) = false) (hjs : bitsFrom lo n x i = js)
    (hfuel : js.length + n < fuel + i) (hi : i ≤ n) :
    scan vector body fuel x (bitMask w (lo + i)) i s =
      some (js.foldl (fun s j => body s (bitMask w (lo + j)) j) s) := by
  obtain ⟨fuel, rfl⟩ : ∃ k, fuel = k + 1 := ⟨fuel - 1, by omega⟩
  induction js generalizing fuel x i s with
  | nil =>
    have hnone : ¬x &&& vector ≠ 0 := by
      rw [not_not, and_vector_eq_zero hw hvector]
      intro k hk
      rcases Nat.lt_or_ge k i with hlt | hge
      · exact hbelow k hlt
      · exact bitsFrom_eq_nil_iff.1 hjs k hge hk
    rw [scan, if_neg hnone]
    rfl
  | cons j js ih =>
    obtain ⟨hij, hjn, hset, hbetween, hrest⟩ := bitsFrom_cons hw hjs
    have hsome : x &&& vector ≠ 0 := by
      rw [Ne, and_vector_eq_zero hw hvector]
      intro h
      simp [h j hjn] at hset
    obtain ⟨d, rfl⟩ : ∃ d, j = i + d := ⟨j - i, by omega⟩
    have hseek :
        seek (fuel + 1) x (bitMask w (lo + i)) i = some (bitMask w (lo + (i + d)), i + d) := by
      rw [← Nat.add_assoc] at hset ⊢
      refine seek_eq (by omega) hset (fun e he => ?_) (by omega)
      rw [Nat.add_assoc]
      exact hbetween (i + e) (by omega) (by omega)
    rw [List.length_cons] at hfuel
    obtain ⟨fuel, rfl⟩ : ∃ k, fuel = k + 1 := ⟨fuel - 1, by omega⟩
    rw [scan, if_pos hsome, hseek]
    refine ih (fun k hk => ?_) hrest (by omega) fuel (by omega)
    rw [getLsbD_and_not_bitMask (by omega) (by omega)]
    rcases Nat.lt_or_ge k i with hlt | hge
    · simp [hbelow k hlt]
    · simp [hbetween k hge hk]

/-- **The scan.** From the first bit of the vector on, the body is run for each bit that is set,
once and in ascending order, with the mask and the index of it. -/
theorem scan_eq (hw : lo + n ≤ w)
    (hvector : ∀ j < w, vector.getLsbD j = decide (lo ≤ j ∧ j < lo + n)) (hfuel : 2 * n < fuel) :
    scan vector body fuel x (bitMask w lo) 0 s =
      some ((bitsFrom lo n x 0).foldl (fun s j => body s (bitMask w (lo + j)) j) s) := by
  have hlength : (bitsFrom lo n x 0).length ≤ n := by
    have := List.length_filter_le (fun j => x.getLsbD (lo + j)) (List.range' 0 (n - 0))
    rwa [List.length_range'] at this
  exact scan_from hw hvector (fun k hk => absurd hk (Nat.not_lt_zero k)) rfl (by omega)
    (Nat.zero_le n)

end LiberaDaq.Memory
