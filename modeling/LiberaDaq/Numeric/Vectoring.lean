import Mathlib.Analysis.Complex.Basic
import Mathlib.Tactic.Linarith
import Mathlib.Tactic.Ring
import Mathlib.Tactic.Positivity
import Mathlib.Tactic.FieldSimp

/-!
# Vectoring with shifts

A vector of integers is turned towards the positive first axis in steps. Step `k` adds to each
component the other one divided by `2 ^ k`, with the signs of a rotation, and rounds the quotients
down. The length of the vector grows by a gain that does not depend on the vector, and the second
component dies out. Both are stated here with what the rounding adds to them.
-/

namespace LiberaDaq.Vectoring

/-- One step: a rotation by `∓ arctan (2 ^ (-k))`, stretched, with the quotients rounded down. -/
def rotate (k : ℕ) (v : ℤ × ℤ) : ℤ × ℤ :=
  if 0 ≤ v.2 then (v.1 + v.2 / 2 ^ k, v.2 - v.1 / 2 ^ k)
  else (v.1 - v.2 / 2 ^ k, v.2 + v.1 / 2 ^ k)

/-- The vector after the steps `0, …, n - 1`. -/
def vectored (v : ℤ × ℤ) : ℕ → ℤ × ℤ
  | 0 => v
  | n + 1 => rotate n (vectored v n)

/-- The length of a vector. -/
noncomputable def magnitude (v : ℤ × ℤ) : ℝ := √((v.1 : ℝ) ^ 2 + (v.2 : ℝ) ^ 2)

local instance atLeastTwo_four : Nat.AtLeastTwo 4 := ⟨by decide⟩

/-- The gain of the first `n` steps. -/
noncomputable def gain (n : ℕ) : ℝ := ∏ k ∈ Finset.range n, √(1 + 1 / 4 ^ k)

/-! ## The rounding of one step -/

/-- The vector as a complex number. -/
noncomputable def point (v : ℤ × ℤ) : ℂ := ⟨v.1, v.2⟩

theorem norm_point (v : ℤ × ℤ) : ‖point v‖ = magnitude v := by
  rw [Complex.norm_eq_sqrt_sq_add_sq]
  rfl

theorem magnitude_nonneg (v : ℤ × ℤ) : 0 ≤ magnitude v := Real.sqrt_nonneg _

/-- What rounding a quotient down takes away. -/
noncomputable def loss (x : ℤ) (k : ℕ) : ℝ := (x : ℝ) / 2 ^ k - ((x / 2 ^ k : ℤ) : ℝ)

theorem loss_nonneg (x : ℤ) (k : ℕ) : 0 ≤ loss x k := by
  have hpos : (0 : ℤ) < 2 ^ k := by positivity
  have hdiv : ((x / 2 ^ k : ℤ) : ℝ) * 2 ^ k ≤ x := by
    exact_mod_cast Int.ediv_mul_le x hpos.ne'
  rw [loss, sub_nonneg, le_div_iff₀ (by positivity)]
  exact hdiv

theorem loss_lt_one (x : ℤ) (k : ℕ) : loss x k < 1 := by
  have hpos : (0 : ℤ) < 2 ^ k := by positivity
  have hdiv : (x : ℝ) < (((x / 2 ^ k : ℤ) : ℝ) + 1) * 2 ^ k := by
    exact_mod_cast Int.lt_ediv_add_one_mul_self x hpos
  rw [loss, sub_lt_iff_lt_add, div_lt_iff₀ (by positivity), add_comm]
  exact hdiv

@[simp] theorem loss_zero (x : ℤ) : loss x 0 = 0 := by
  simp [loss]

theorem floor_eq (x : ℤ) (k : ℕ) : ((x / 2 ^ k : ℤ) : ℝ) = (x : ℝ) / 2 ^ k - loss x k := by
  rw [loss]
  ring

/-- What the rounding adds to the exact step. -/
noncomputable def slip (k : ℕ) (v : ℤ × ℤ) : ℂ :=
  if 0 ≤ v.2 then ⟨-loss v.2 k, loss v.1 k⟩ else ⟨loss v.2 k, -loss v.1 k⟩

/-- The factor of the exact step. -/
noncomputable def stretch (k : ℕ) (v : ℤ × ℤ) : ℂ :=
  if 0 ≤ v.2 then ⟨1, -(1 / 2 ^ k)⟩ else ⟨1, 1 / 2 ^ k⟩

theorem point_rotate (k : ℕ) (v : ℤ × ℤ) :
    point (rotate k v) = point v * stretch k v + slip k v := by
  rw [rotate, stretch, slip]
  by_cases h : 0 ≤ v.2
  · rw [if_pos h, if_pos h, if_pos h]
    apply Complex.ext
    · simp only [point, Complex.add_re, Complex.mul_re, Int.cast_add, floor_eq]
      ring
    · simp only [point, Complex.add_im, Complex.mul_im, Int.cast_sub, floor_eq]
      ring
  · rw [if_neg h, if_neg h, if_neg h]
    apply Complex.ext
    · simp only [point, Complex.add_re, Complex.mul_re, Int.cast_sub, floor_eq]
      ring
    · simp only [point, Complex.add_im, Complex.mul_im, Int.cast_add, floor_eq]
      ring

theorem norm_stretch (k : ℕ) (v : ℤ × ℤ) : ‖stretch k v‖ = √(1 + 1 / 4 ^ k) := by
  have hsq : ((1 : ℝ) / 2 ^ k) ^ 2 = 1 / 4 ^ k := by
    rw [div_pow, one_pow, ← pow_mul, mul_comm k 2, pow_mul]
    norm_num
  rw [Complex.norm_eq_sqrt_sq_add_sq, stretch]
  by_cases h : 0 ≤ v.2
  · rw [if_pos h]
    dsimp only
    rw [neg_sq, hsq, one_pow]
  · rw [if_neg h]
    dsimp only
    rw [hsq, one_pow]

theorem norm_slip_le (k : ℕ) (v : ℤ × ℤ) : ‖slip k v‖ ≤ 3 / 2 := by
  have hsq : ‖slip k v‖ = √(loss v.2 k ^ 2 + loss v.1 k ^ 2) := by
    rw [Complex.norm_eq_sqrt_sq_add_sq, slip]
    by_cases h : 0 ≤ v.2
    · rw [if_pos h]
      dsimp only
      rw [neg_sq]
    · rw [if_neg h]
      dsimp only
      rw [neg_sq]
  have hone : ∀ x : ℤ, loss x k ^ 2 ≤ 1 := fun x =>
    pow_le_one₀ (loss_nonneg x k) (loss_lt_one x k).le
  rw [hsq, Real.sqrt_le_left (by norm_num)]
  linarith [hone v.1, hone v.2]

theorem slip_zero (v : ℤ × ℤ) : slip 0 v = 0 := by
  rw [slip]
  by_cases h : 0 ≤ v.2
  · rw [if_pos h, loss_zero, loss_zero, neg_zero]
    rfl
  · rw [if_neg h, loss_zero, loss_zero, neg_zero]
    rfl

/-- A step changes the length by its factor, but for the rounding. -/
theorem abs_magnitude_rotate_le (k : ℕ) (v : ℤ × ℤ) :
    |magnitude (rotate k v) - √(1 + 1 / 4 ^ k) * magnitude v| ≤ ‖slip k v‖ := by
  have hsplit : point (rotate k v) - point v * stretch k v = slip k v := by
    rw [point_rotate, add_sub_cancel_left]
  have hexact : ‖point v * stretch k v‖ = √(1 + 1 / 4 ^ k) * magnitude v := by
    rw [norm_mul, norm_point, norm_stretch, mul_comm]
  rw [← norm_point, ← hexact, ← hsplit]
  exact abs_norm_sub_norm_le _ _

/-! ## The length of the vector -/

theorem gain_succ (n : ℕ) : gain (n + 1) = gain n * √(1 + 1 / 4 ^ n) :=
  Finset.prod_range_succ _ n

theorem one_le_step (k : ℕ) : 1 ≤ √(1 + 1 / (4 : ℝ) ^ k) := by
  rw [Real.one_le_sqrt]
  have hpos : (0 : ℝ) ≤ 1 / 4 ^ k := by positivity
  linarith

theorem step_le (k : ℕ) : √(1 + 1 / (4 : ℝ) ^ k) ≤ 1 + 1 / 4 ^ k / 2 := by
  have hpos : (0 : ℝ) ≤ 1 / 4 ^ k := by positivity
  rw [Real.sqrt_le_left (by linarith)]
  nlinarith

theorem one_le_gain (n : ℕ) : 1 ≤ gain n := by
  induction n with
  | zero => simp [gain]
  | succ n ih =>
    rw [gain_succ]
    exact one_le_mul_of_one_le_of_one_le ih (one_le_step n)

theorem gain_mono : Monotone gain := by
  refine monotone_nat_of_le_succ fun n => ?_
  rw [gain_succ]
  exact le_mul_of_one_le_right (zero_le_one.trans (one_le_gain n)) (one_le_step n)

theorem gain_sq (n : ℕ) : gain n ^ 2 = ∏ k ∈ Finset.range n, (1 + 1 / (4 : ℝ) ^ k) := by
  rw [gain, ← Finset.prod_pow]
  refine Finset.prod_congr rfl fun k _ => ?_
  exact Real.sq_sqrt (by positivity)

/-- The rounding of a step is at most `3 / 2`, and a later step stretches what was there before by
little: the first step rounds nothing, and after `n` more the length is off by at most `2 n`. -/
theorem abs_magnitude_vectored_le (v : ℤ × ℤ) (n : ℕ) :
    |magnitude (vectored v (n + 1)) - gain (n + 1) * magnitude v| ≤ 2 * n := by
  induction n with
  | zero =>
    have hstep := abs_magnitude_rotate_le 0 v
    rw [slip_zero, norm_zero] at hstep
    rw [gain_succ, gain, Finset.prod_range_zero, one_mul, Nat.cast_zero, mul_zero]
    exact hstep
  | succ n ih =>
    have hstep := (abs_magnitude_rotate_le (n + 1) (vectored v (n + 1))).trans
      (norm_slip_le (n + 1) _)
    have hpow : (n : ℝ) ≤ 4 ^ n := by exact_mod_cast (Nat.lt_pow_self (by norm_num)).le
    have hstretch : √(1 + 1 / (4 : ℝ) ^ (n + 1)) * (2 * n) ≤ 2 * n + 1 / 2 := by
      have hsmall : 1 / (4 : ℝ) ^ (n + 1) / 2 * (2 * n) ≤ 1 / 4 := by
        rw [pow_succ]
        have hpos : (0 : ℝ) < 4 ^ n := by positivity
        rw [show 1 / ((4 : ℝ) ^ n * 4) / 2 * (2 * n) = n / 4 ^ n / 4 by field_simp]
        have hone : (n : ℝ) / 4 ^ n ≤ 1 := (div_le_one hpos).2 hpow
        linarith
      have hmul := mul_le_mul_of_nonneg_right (step_le (n + 1)) (by positivity : (0 : ℝ) ≤ 2 * n)
      linarith
    have hold : |√(1 + 1 / (4 : ℝ) ^ (n + 1)) * magnitude (vectored v (n + 1))
        - gain (n + 2) * magnitude v| ≤ √(1 + 1 / (4 : ℝ) ^ (n + 1)) * (2 * n) := by
      rw [gain_succ (n + 1), mul_comm (gain (n + 1)), mul_assoc, ← mul_sub, abs_mul,
        abs_of_nonneg (Real.sqrt_nonneg _)]
      exact mul_le_mul_of_nonneg_left ih (Real.sqrt_nonneg _)
    have hsum := abs_sub_le (magnitude (vectored v (n + 2)))
      (√(1 + 1 / (4 : ℝ) ^ (n + 1)) * magnitude (vectored v (n + 1))) (gain (n + 2) * magnitude v)
    rw [Nat.cast_succ]
    change |magnitude (vectored v (n + 2)) - _| ≤ 3 / 2 at hstep
    linarith

/-- The length of every intermediate vector stays below the final gain. -/
theorem magnitude_vectored_le (v : ℤ × ℤ) {k n : ℕ} (h : k ≤ n + 1) :
    magnitude (vectored v k) ≤ gain (n + 1) * magnitude v + 2 * n := by
  rcases k with _ | k
  · have hgain := mul_le_mul_of_nonneg_right (one_le_gain (n + 1)) (magnitude_nonneg v)
    have hn : (0 : ℝ) ≤ 2 * n := by positivity
    rw [vectored]
    linarith
  · have hone := (abs_le.1 (abs_magnitude_vectored_le v k)).2
    have hgain := mul_le_mul_of_nonneg_right (gain_mono h) (magnitude_nonneg v)
    have hk : (k : ℝ) ≤ n := by exact_mod_cast Nat.le_of_succ_le_succ h
    linarith

/-! ## The second component -/

theorem fst_le_rotate {k : ℕ} {v : ℤ × ℤ} : v.1 ≤ (rotate k v).1 := by
  have hpos : (0 : ℤ) < 2 ^ k := by positivity
  rw [rotate]
  by_cases h : 0 ≤ v.2
  · rw [if_pos h]
    exact le_add_of_nonneg_right (Int.ediv_nonneg h hpos.le)
  · rw [if_neg h]
    have hneg := Int.ediv_neg_of_neg_of_pos (not_le.1 h) hpos
    dsimp only
    omega

theorem fst_mono (v : ℤ × ℤ) : Monotone fun n => (vectored v n).1 :=
  monotone_nat_of_le_succ fun _ => fst_le_rotate

theorem fst_nonneg {v : ℤ × ℤ} (h : 0 ≤ v.1) (n : ℕ) : 0 ≤ (vectored v n).1 :=
  h.trans (fst_mono v n.zero_le)

/-- **The second component dies out.** After `n + 1` steps it is at most the `2 ^ n`-th part of the
first one, and one more for each step that rounds. -/
theorem abs_snd_le {v : ℤ × ℤ} (h : 0 ≤ v.1) (n : ℕ) :
    |((vectored v (n + 1)).2 : ℝ)| ≤ (vectored v (n + 1)).1 / 2 ^ n + n := by
  induction n with
  | zero =>
    have hint : |(vectored v 1).2| ≤ (vectored v 1).1 := by
      have hone : (2 : ℤ) ^ 0 = 1 := pow_zero 2
      rw [vectored, vectored, rotate]
      by_cases hs : 0 ≤ v.2
      · rw [if_pos hs, hone, Int.ediv_one, Int.ediv_one, abs_le]
        dsimp only
        omega
      · rw [if_neg hs, hone, Int.ediv_one, Int.ediv_one, abs_le]
        dsimp only
        omega
    rw [pow_zero, div_one, Nat.cast_zero, add_zero]
    exact_mod_cast hint
  | succ n ih =>
    set w := vectored v (n + 1) with hw
    have hgrow : (w.1 : ℝ) ≤ (rotate (n + 1) w).1 := by exact_mod_cast fst_le_rotate
    have hnonneg : (0 : ℝ) ≤ w.1 := by exact_mod_cast fst_nonneg h (n + 1)
    have hhalf : (w.1 : ℝ) / 2 ^ n = 2 * (w.1 / 2 ^ (n + 1)) := by
      rw [pow_succ]
      field_simp
    have hscaled : (w.1 : ℝ) / 2 ^ (n + 1) ≤ (rotate (n + 1) w).1 / 2 ^ (n + 1) :=
      div_le_div_of_nonneg_right hgrow (by positivity)
    have hpart : (0 : ℝ) ≤ w.1 / 2 ^ (n + 1) := by positivity
    have hlow := loss_nonneg w.1 (n + 1)
    have hhigh := loss_lt_one w.1 (n + 1)
    have hn : (0 : ℝ) ≤ n := n.cast_nonneg
    rw [hhalf, abs_le] at ih
    rw [Nat.cast_succ, abs_le]
    by_cases hs : 0 ≤ w.2
    · have hpos : (0 : ℝ) ≤ w.2 := by exact_mod_cast hs
      have hsnd : ((vectored v (n + 1 + 1)).2 : ℝ) =
          w.2 - (w.1 / 2 ^ (n + 1) - loss w.1 (n + 1)) := by
        rw [← floor_eq, vectored, ← hw, rotate, if_pos hs]
        push_cast
        ring
      rw [hsnd, show (vectored v (n + 1 + 1)).1 = (rotate (n + 1) w).1 from rfl]
      constructor <;> linarith [ih.1, ih.2]
    · have hneg : (w.2 : ℝ) < 0 := by exact_mod_cast not_le.1 hs
      have hsnd : ((vectored v (n + 1 + 1)).2 : ℝ) =
          w.2 + (w.1 / 2 ^ (n + 1) - loss w.1 (n + 1)) := by
        rw [← floor_eq, vectored, ← hw, rotate, if_neg hs]
        push_cast
        ring
      rw [hsnd, show (vectored v (n + 1 + 1)).1 = (rotate (n + 1) w).1 from rfl]
      constructor <;> linarith [ih.1, ih.2]

/-! ## The first component as the length -/

theorem fst_le_magnitude (v : ℤ × ℤ) : (v.1 : ℝ) ≤ magnitude v :=
  Real.le_sqrt_of_sq_le (le_add_of_nonneg_right (sq_nonneg _))

theorem abs_fst_le_magnitude (v : ℤ × ℤ) : |(v.1 : ℝ)| ≤ magnitude v :=
  Real.abs_le_sqrt (le_add_of_nonneg_right (sq_nonneg _))

theorem abs_snd_le_magnitude (v : ℤ × ℤ) : |(v.2 : ℝ)| ≤ magnitude v :=
  Real.abs_le_sqrt (le_add_of_nonneg_left (sq_nonneg _))

/-- A vector near the first axis is hardly longer than its first component. -/
theorem magnitude_le {v : ℤ × ℤ} {d c : ℝ} (hv : 0 ≤ v.1) (hd : d ≤ 1) (hc : 0 ≤ c)
    (h : |(v.2 : ℝ)| ≤ v.1 * d + c) : magnitude v ≤ v.1 * (1 + d ^ 2 / 2) + c := by
  have hv' : (0 : ℝ) ≤ v.1 := by exact_mod_cast hv
  have hsq : (v.2 : ℝ) ^ 2 ≤ (v.1 * d + c) ^ 2 := by
    rw [← sq_abs]
    exact pow_le_pow_left₀ (abs_nonneg _) h 2
  have hcross : v.1 * d * c ≤ v.1 * 1 * c := by gcongr
  rw [magnitude, Real.sqrt_le_left (by positivity)]
  have hextra : 0 ≤ ((v.1 : ℝ) * (d ^ 2 / 2)) ^ 2 + v.1 * d ^ 2 * c := by positivity
  linarith [hextra, hsq, hcross,
    show ((v.1 : ℝ) * (1 + d ^ 2 / 2) + c) ^ 2 =
      v.1 ^ 2 + v.1 ^ 2 * d ^ 2 + 2 * (v.1 * 1 * c) + c ^ 2
        + (((v.1 : ℝ) * (d ^ 2 / 2)) ^ 2 + v.1 * d ^ 2 * c) by ring,
    show ((v.1 : ℝ) * d + c) ^ 2 = v.1 ^ 2 * d ^ 2 + 2 * (v.1 * d * c) + c ^ 2 by ring]

/-- **The first component becomes the length.** After `n + 1` steps from a vector whose first
component is not negative, it is the length times the gain but for the `2 ^ (2 n + 1)`-th part of
it, and three for each step that rounds. -/
theorem fst_close {v : ℤ × ℤ} (h : 0 ≤ v.1) (n : ℕ) :
    ((vectored v (n + 1)).1 : ℝ) ≤ gain (n + 1) * magnitude v + 2 * n ∧
      gain (n + 1) * magnitude v ≤
        (vectored v (n + 1)).1 * (1 + (1 / 2 ^ n) ^ 2 / 2) + 3 * n := by
  have hlength := abs_le.1 (abs_magnitude_vectored_le v n)
  have hupper := fst_le_magnitude (vectored v (n + 1))
  have hsnd := abs_snd_le h n
  rw [div_eq_mul_one_div] at hsnd
  have hone : (1 : ℝ) / 2 ^ n ≤ 1 := by
    rw [div_le_one (by positivity)]
    exact one_le_pow₀ one_le_two
  have hlower := magnitude_le (fst_nonneg h (n + 1)) hone n.cast_nonneg hsnd
  constructor <;> linarith [hlength.1, hlength.2]

end LiberaDaq.Vectoring
