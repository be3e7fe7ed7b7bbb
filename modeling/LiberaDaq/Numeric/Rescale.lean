import Mathlib.Algebra.Order.Ring.Int
import Mathlib.Algebra.Order.Group.Abs
import Mathlib.Order.Interval.Set.UnorderedInterval
import Mathlib.Tactic.Linarith
import Mathlib.Tactic.Ring

/-!
# Rescaling a distance

Two counters run at rates of which one is `a / b` of the other, and were read together once. A
distance from that moment is carried over by multiplying and dividing, where the quotient is
truncated towards zero. The map is monotone (`Sync.convert_mono`), and there and back again loses
less than one step of the first counter and one step of the second (`Sync.convert_back_lt`), always
towards the common moment (`Sync.convert_back_mem`).
-/

namespace LiberaDaq.Numeric

/-- The distance `x`, at `a / b` of the rate. -/
def rescale (a b : ℕ) (x : ℤ) : ℤ := (x * a).tdiv b

variable {a b : ℕ} {x y : ℤ}

theorem rescale_neg : rescale a b (-x) = -rescale a b x := by
  rw [rescale, rescale, neg_mul, Int.neg_tdiv]

/-- A distance forwards is rounded down. -/
theorem rescale_natCast (n : ℕ) : rescale a b n = (n * a / b : ℕ) := by
  rw [rescale, ← Nat.cast_mul, Int.natCast_tdiv_eq_ediv, Int.natCast_ediv]

theorem rescale_mono (hb : 0 < b) (h : x ≤ y) : rescale a b x ≤ rescale a b y :=
  Int.tdiv_le_tdiv (by exact_mod_cast hb) (mul_le_mul_of_nonneg_right h (Int.natCast_nonneg a))

/-! ## There and back -/

/-- A distance forwards stays one, and gets no longer. -/
theorem rescale_back_natCast_mem (n : ℕ) :
    0 ≤ rescale b a (rescale a b n) ∧ rescale b a (rescale a b n) ≤ n := by
  rw [rescale_natCast, rescale_natCast]
  refine ⟨Int.natCast_nonneg _, ?_⟩
  rcases Nat.eq_zero_or_pos a with rfl | ha
  · simp
  · have hthere : n * a / b * b ≤ n * a := Nat.div_mul_le_self _ _
    exact_mod_cast Nat.div_le_of_le_mul (by linarith)

/-- A distance ends in the same direction, no longer than it was. -/
theorem rescale_back_mem : rescale b a (rescale a b x) ∈ Set.uIcc 0 x := by
  rw [Set.mem_uIcc]
  obtain ⟨n, rfl | rfl⟩ := Int.eq_nat_or_neg x
  · exact .inl (rescale_back_natCast_mem n)
  · obtain ⟨hpos, hle⟩ := rescale_back_natCast_mem (a := a) (b := b) n
    rw [rescale_neg, rescale_neg]
    exact .inr ⟨neg_le_neg hle, neg_nonpos.2 hpos⟩

/-- A distance loses less than one step of each counter. -/
theorem lt_rescale_back (ha : 0 < a) (hb : 0 < b) (n : ℕ) :
    (n - rescale b a (rescale a b n)) * a < a + b := by
  rw [rescale_natCast, rescale_natCast]
  have hthere : n * a < (n * a / b + 1) * b := Nat.lt_mul_of_div_lt (Nat.lt_succ_self _) hb
  have hback : n * a / b * b < (n * a / b * b / a + 1) * a :=
    Nat.lt_mul_of_div_lt (Nat.lt_succ_self _) ha
  zify at hthere hback
  push_cast at hthere hback ⊢
  linarith

/-! ## Counters that were read together -/

/-- Two counters at one moment. -/
structure Sync where
  here : ℤ
  there : ℤ

namespace Sync

/-- The same moment, for the way back. -/
def swap (s : Sync) : Sync := ⟨s.there, s.here⟩

/-- The second counter, when the first one is at `x`. -/
def convert (s : Sync) (a b : ℕ) (x : ℤ) : ℤ := s.there + rescale a b (x - s.here)

variable {s : Sync}

theorem convert_mono (hb : 0 < b) (h : x ≤ y) : s.convert a b x ≤ s.convert a b y :=
  Int.add_le_add_left (rescale_mono hb (Int.sub_le_sub_right h _)) _

/-- The distance that comes back. -/
theorem swap_convert_convert :
    s.swap.convert b a (s.convert a b x) - s.here = rescale b a (rescale a b (x - s.here)) := by
  rw [convert, swap, convert]
  ring_nf

/-- There and back again ends between the common moment and the start. -/
theorem convert_back_mem : s.swap.convert b a (s.convert a b x) ∈ Set.uIcc s.here x := by
  have hmem : s.swap.convert b a (s.convert a b x) - s.here ∈ Set.uIcc 0 (x - s.here) := by
    rw [swap_convert_convert]
    exact rescale_back_mem
  rw [Set.mem_uIcc] at hmem ⊢
  omega

/-- **There and back again** loses less than a step of the first counter and a step of the
second. -/
theorem convert_back_lt (ha : 0 < a) (hb : 0 < b) :
    |x - s.swap.convert b a (s.convert a b x)| * a < a + b := by
  have hsplit : x - s.swap.convert b a (s.convert a b x) =
      (x - s.here) - rescale b a (rescale a b (x - s.here)) := by
    rw [← swap_convert_convert]
    ring
  rw [hsplit]
  obtain ⟨n, hn | hn⟩ := Int.eq_nat_or_neg (x - s.here)
  · rw [hn, abs_of_nonneg (sub_nonneg.2 (rescale_back_natCast_mem n).2)]
    exact lt_rescale_back ha hb n
  · rw [hn, rescale_neg, rescale_neg, neg_sub_neg, abs_sub_comm,
      abs_of_nonneg (sub_nonneg.2 (rescale_back_natCast_mem n).2)]
    exact lt_rescale_back ha hb n

end Sync

end LiberaDaq.Numeric
