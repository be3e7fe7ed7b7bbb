import LiberaDaq.Numeric.Vectoring
import LiberaDaq.Transform.Arithmetic

/-!
# The CORDIC amplitude

`cordic_amp` of `cordic.c`: a pair is turned into the right half plane, vectored in twelve steps,
and the first component is the amplitude times the gain. It overflows when the amplitude times the
gain does not fit in an `int`, and is accurate whenever it does not overflow.
-/

namespace LiberaDaq.Transform

open Vectoring

/-! ## The code -/

/-- One turn of the loop of `cordic_amp`. -/
def cordicTurn (b : Build) (L : ℕ) (v : ℤ × ℤ) : Except Fault (ℤ × ℤ) :=
  let (I, Q) := v
  if Q ≥ 0 then do
    -- positive phase; negative rotation
    let I' ← b.int (I + Q >>> L)
    let Q' ← b.int (Q - I >>> L)
    pure (I', Q')
  else do
    let I' ← b.int (I - Q >>> L)
    let Q' ← b.int (Q + I >>> L)
    pure (I', Q')

/-- The first turns of the loop of `cordic_amp`. -/
def cordicTurns (b : Build) (v : ℤ × ℤ) : ℕ → Except Fault (ℤ × ℤ)
  | 0 => pure v
  | L + 1 => do cordicTurn b L (← cordicTurns b v L)

/-- The rotation by `± 90` degrees before the loop. -/
def cordicFold (b : Build) (I Q : ℤ) : Except Fault (ℤ × ℤ) :=
  if I < 0 then
    if Q > 0 then do
      let Q' ← b.int (-I)
      pure (Q, Q')
    else do
      let I' ← b.int (-Q)
      pure (I', I)
  else pure (I, Q)

/-- `CORDIC_GAIN64`. -/
def cordicGain64 : ℤ := 2608131600

/-- `cordic_correct`. -/
def cordicCorrect (b : Build) (iVx : ℤ) : Except Fault ℤ :=
  if b.ignoreGain then pure iVx
  else do
    let product ← b.int64 (cordicGain64 * iVx)
    b.castInt (product >>> (32 : ℕ))

/-- `CORDIC_MAXLEVEL`. -/
def cordicMaxlevel : ℕ := 11

/-- `cordic_amp`. -/
def cordicAmp (b : Build) (I Q : ℤ) : Except Fault ℤ := do
  let v ← cordicFold b I Q
  let w ← cordicTurns b v (cordicMaxlevel + 1)
  cordicCorrect b w.1

section Faults

variable {b : Build} {P : Fault → Prop} (h : b.StopsFor P)
include h

theorem faultsIn_int_pair (x y : ℤ) :
    FaultsIn P (do let x' ← b.int x
                   let y' ← b.int y
                   pure (x', y')) :=
  (h.int x).bind fun _ _ => (h.int y).bind fun _ _ => faultsIn_ok _

theorem cordicTurn_faults (L : ℕ) (v : ℤ × ℤ) : FaultsIn P (cordicTurn b L v) := by
  rw [cordicTurn]
  split
  · exact faultsIn_int_pair h _ _
  · exact faultsIn_int_pair h _ _

theorem cordicTurns_faults (v : ℤ × ℤ) (n : ℕ) : FaultsIn P (cordicTurns b v n) := by
  induction n with
  | zero => exact faultsIn_ok v
  | succ n ih => exact ih.bind fun w _ => cordicTurn_faults h n w

theorem cordicAmp_faults (I Q : ℤ) : FaultsIn P (cordicAmp b I Q) := by
  have hfold : FaultsIn P (cordicFold b I Q) := by
    rw [cordicFold]
    split
    · split
      · exact (h.int _).bind fun _ _ => faultsIn_ok _
      · exact (h.int _).bind fun _ _ => faultsIn_ok _
    · exact faultsIn_ok _
  refine hfold.bind fun v _ => (cordicTurns_faults h v _).bind fun w _ => ?_
  rw [cordicCorrect]
  split
  · exact faultsIn_ok _
  · exact (h.int64 _).bind fun _ _ => h.castInt _

end Faults

/-! ## The exact values -/

/-- The pair turned into the right half plane. -/
def folded (I Q : ℤ) : ℤ × ℤ :=
  if I < 0 then if Q > 0 then (Q, -I) else (-Q, I) else (I, Q)

theorem folded_fst_nonneg (I Q : ℤ) : 0 ≤ (folded I Q).1 := by
  rw [folded]
  by_cases hI : I < 0
  · rw [if_pos hI]
    by_cases hQ : Q > 0
    · rw [if_pos hQ]
      exact hQ.le
    · rw [if_neg hQ]
      exact neg_nonneg.2 (not_lt.1 hQ)
  · rw [if_neg hI]
    exact not_lt.1 hI

theorem magnitude_folded (I Q : ℤ) : magnitude (folded I Q) = magnitude (I, Q) := by
  rw [folded]
  by_cases hI : I < 0
  · rw [if_pos hI]
    by_cases hQ : Q > 0
    · rw [if_pos hQ, magnitude, magnitude, Int.cast_neg, neg_sq, add_comm]
    · rw [if_neg hQ, magnitude, magnitude, Int.cast_neg, neg_sq, add_comm]
  · rw [if_neg hI]

/-- Both components in the range of `int`. -/
def IsIntPair (v : ℤ × ℤ) : Prop := IsInt v.1 ∧ IsInt v.2

instance (v : ℤ × ℤ) : Decidable (IsIntPair v) := inferInstanceAs (Decidable (_ ∧ _))

theorem shiftRight_eq (x : ℤ) (L : ℕ) : x >>> L = x / 2 ^ L := by
  rw [Int.shiftRight_eq_div_pow]
  push_cast
  rfl

theorem int_pair_strict (g : Bool) (x y : ℤ) :
    (do let x' ← (Build.strict g).int x
        let y' ← (Build.strict g).int y
        pure (x', y')) = if IsIntPair (x, y) then .ok (x, y) else .error .overflow := by
  by_cases hx : IsInt x
  · by_cases hy : IsInt y
    · rw [if_pos ⟨hx, hy⟩, Build.int_of hx, ok_bind, Build.int_of hy, ok_bind]
      rfl
    · rw [if_neg fun h => hy h.2, Build.int_of hx, ok_bind,
        Build.strict_int_error.2 ⟨hy, rfl⟩, error_bind]
  · rw [if_neg fun h => hx h.1, Build.strict_int_error.2 ⟨hx, rfl⟩, error_bind]

theorem cordicTurn_strict (g : Bool) (L : ℕ) (v : ℤ × ℤ) :
    cordicTurn (.strict g) L v =
      if IsIntPair (rotate L v) then .ok (rotate L v) else .error .overflow := by
  obtain ⟨I, Q⟩ := v
  rw [cordicTurn, rotate]
  dsimp only
  rw [shiftRight_eq, shiftRight_eq]
  by_cases h : 0 ≤ Q
  · rw [if_pos h, if_pos h, int_pair_strict]
  · rw [if_neg h, if_neg h, int_pair_strict]

/-- The turns follow the exact vectors up to the first one that does not fit. -/
theorem cordicTurns_strict (g : Bool) (v : ℤ × ℤ) (n : ℕ) :
    cordicTurns (.strict g) v n =
      if ∀ k < n, IsIntPair (vectored v (k + 1)) then .ok (vectored v n)
      else .error .overflow := by
  induction n with
  | zero =>
    rw [if_pos fun k hk => absurd hk k.not_lt_zero]
    rfl
  | succ n ih =>
    rw [cordicTurns, ih]
    by_cases hn : ∀ k < n, IsIntPair (vectored v (k + 1))
    · rw [if_pos hn, ok_bind, cordicTurn_strict]
      by_cases hlast : IsIntPair (rotate n (vectored v n))
      · rw [if_pos hlast, if_pos]
        · rfl
        · intro k hk
          rcases Nat.lt_succ_iff_lt_or_eq.1 hk with hk | rfl
          · exact hn k hk
          · exact hlast
      · rw [if_neg hlast, if_neg fun h => hlast (h n n.lt_succ_self)]
    · rw [if_neg hn, if_neg fun h => hn fun k hk => h k (hk.trans n.lt_succ_self)]
      rfl

theorem cordicFold_strict (g : Bool) {I Q : ℤ} (hI : IsInt I) (hQ : IsInt Q) :
    cordicFold (.strict g) I Q =
      if IsIntPair (folded I Q) then .ok (folded I Q) else .error .overflow := by
  rw [cordicFold, folded]
  by_cases hneg : I < 0
  · rw [if_pos hneg, if_pos hneg]
    by_cases hpos : Q > 0
    · rw [if_pos hpos, if_pos hpos, ← int_pair_strict, Build.int_of hQ, ok_bind]
    · rw [if_neg hpos, if_neg hpos, ← int_pair_strict, Build.int_of hI]
      rfl
  · rw [if_neg hneg, if_neg hneg, if_pos ⟨hI, hQ⟩]
    rfl

/-- The amplitude of a first component, with or without the correction of the gain. -/
def corrected (ignoreGain : Bool) (x : ℤ) : ℤ :=
  if ignoreGain then x else cordicGain64 * x / 2 ^ 32

theorem corrected_nonneg (g : Bool) {x : ℤ} (h : 0 ≤ x) : 0 ≤ corrected g x := by
  rw [corrected, cordicGain64]
  cases g with
  | false =>
    rw [if_neg Bool.false_ne_true]
    omega
  | true =>
    rw [if_pos rfl]
    exact h

theorem corrected_le (g : Bool) {x : ℤ} (h : 0 ≤ x) : corrected g x ≤ x := by
  rw [corrected, cordicGain64]
  cases g with
  | false =>
    rw [if_neg Bool.false_ne_true]
    omega
  | true => rw [if_pos rfl]

theorem cordicCorrect_strict (g : Bool) {x : ℤ} (h : IsInt x) :
    cordicCorrect (.strict g) x = .ok (corrected g x) := by
  obtain ⟨hlow, hhigh⟩ := h
  rw [cordicCorrect, corrected]
  cases g with
  | true => rfl
  | false =>
    rw [if_neg Bool.false_ne_true, if_neg (show ¬(Build.strict false).ignoreGain = true from nofun)]
    have hproduct : IsInt64 (cordicGain64 * x) := by
      rw [IsInt64, cordicGain64]
      omega
    have hquotient : IsInt (cordicGain64 * x / 2 ^ 32) := by
      rw [IsInt, cordicGain64]
      omega
    rw [Build.int64_of hproduct, ok_bind, shiftRight_eq, Build.castInt_of hquotient]

/-- No intermediate value of the pair leaves the range of `int`. -/
def Fits (I Q : ℤ) : Prop :=
  IsIntPair (folded I Q) ∧ ∀ k < cordicMaxlevel + 1, IsIntPair (vectored (folded I Q) (k + 1))

/-- The amplitude of the pair, were there no bound to an `int`. -/
def amplitude (ignoreGain : Bool) (I Q : ℤ) : ℤ :=
  corrected ignoreGain (vectored (folded I Q) (cordicMaxlevel + 1)).1

theorem amplitude_nonneg (g : Bool) (I Q : ℤ) : 0 ≤ amplitude g I Q :=
  corrected_nonneg g (fst_nonneg (folded_fst_nonneg I Q) _)

theorem cordicAmp_of_fits (g : Bool) {I Q : ℤ} (hI : IsInt I) (hQ : IsInt Q) (h : Fits I Q) :
    cordicAmp (.strict g) I Q = .ok (amplitude g I Q) := by
  have hlast := h.2 cordicMaxlevel cordicMaxlevel.lt_succ_self
  rw [cordicAmp, cordicFold_strict g hI hQ, if_pos h.1, ok_bind, cordicTurns_strict, if_pos h.2,
    ok_bind, cordicCorrect_strict g hlast.1, amplitude]

theorem cordicAmp_of_not_fits (g : Bool) {I Q : ℤ} (hI : IsInt I) (hQ : IsInt Q)
    (h : ¬Fits I Q) : cordicAmp (.strict g) I Q = .error .overflow := by
  rw [cordicAmp, cordicFold_strict g hI hQ]
  by_cases hfold : IsIntPair (folded I Q)
  · rw [if_pos hfold, ok_bind, cordicTurns_strict, if_neg fun hturns => h ⟨hfold, hturns⟩,
      error_bind]
  · rw [if_neg hfold, error_bind]

theorem cordicAmp_ok (g : Bool) {I Q R : ℤ} (hI : IsInt I) (hQ : IsInt Q) :
    cordicAmp (.strict g) I Q = .ok R ↔ Fits I Q ∧ R = amplitude g I Q := by
  by_cases h : Fits I Q
  · rw [cordicAmp_of_fits g hI hQ h, Except.ok.injEq, eq_comm]
    exact (and_iff_right h).symm
  · rw [cordicAmp_of_not_fits g hI hQ h]
    simp only [reduceCtorEq, h, false_and]

/-! ## The accuracy -/

/-- The CORDIC gain `CG`: its square is the product of the `1 + 4 ^ (-L)`. -/
noncomputable def cordicGain : ℝ := √(∏ L ∈ Finset.range (cordicMaxlevel + 1), (1 + 1 / 4 ^ L))

theorem cordicGain_eq : cordicGain = gain (cordicMaxlevel + 1) := by
  rw [cordicGain, ← gain_sq, Real.sqrt_sq (zero_le_one.trans (one_le_gain _))]

/-- **The amplitude is accurate.** If no intermediate value of `cordic_amp` leaves the range of
`int`, the value without the correction of the gain is `CG * √(I ^ 2 + Q ^ 2)` up to the `2 ^ 21`-th
part of it and `64`. -/
theorem cordicAmp_accurate {I Q R : ℤ} (hI : IsInt I) (hQ : IsInt Q)
    (h : cordicAmp (.strict true) I Q = .ok R) :
    |R - cordicGain * √((I : ℝ) ^ 2 + (Q : ℝ) ^ 2)| ≤
      cordicGain * √((I : ℝ) ^ 2 + (Q : ℝ) ^ 2) / 2 ^ 21 + 64 := by
  obtain ⟨-, rfl⟩ := (cordicAmp_ok true hI hQ).1 h
  have hvalue : amplitude true I Q = (vectored (folded I Q) (cordicMaxlevel + 1)).1 := rfl
  have hlength : √((I : ℝ) ^ 2 + (Q : ℝ) ^ 2) = magnitude (folded I Q) := by
    rw [magnitude_folded, magnitude]
  obtain ⟨hupper, hlower⟩ := fst_close (folded_fst_nonneg I Q) cordicMaxlevel
  have hlong : 0 ≤ gain (cordicMaxlevel + 1) * magnitude (folded I Q) :=
    mul_nonneg (zero_le_one.trans (one_le_gain _)) (magnitude_nonneg _)
  rw [hvalue, hlength, cordicGain_eq, abs_le]
  have hnat : ((cordicMaxlevel : ℕ) : ℝ) = 11 := by norm_num [cordicMaxlevel]
  rw [hnat] at hupper hlower
  rw [show (1 : ℝ) / 2 ^ cordicMaxlevel = 1 / 2 ^ 11 from rfl] at hlower
  constructor <;> linarith

theorem cordicAmp_accurate_three_four :
    |((9 : ℤ) : ℝ) - cordicGain * √(((3 : ℤ) : ℝ) ^ 2 + ((4 : ℤ) : ℝ) ^ 2)| ≤
      cordicGain * √(((3 : ℤ) : ℝ) ^ 2 + ((4 : ℤ) : ℝ) ^ 2) / 2 ^ 21 + 64 :=
  cordicAmp_accurate (by decide) (by decide) (by decide)

/-! ## The range -/

theorem isInt_of_abs_lt {x : ℤ} {r : ℝ} (h : |(x : ℝ)| ≤ r) (hr : r < 2 ^ 31) : IsInt x := by
  obtain ⟨hlow, hhigh⟩ := abs_lt.1 (h.trans_lt hr)
  constructor
  · exact_mod_cast hlow.le
  · exact_mod_cast hhigh

theorem isIntPair_folded {I Q : ℤ} (hI : -2 ^ 30 ≤ I ∧ I < 2 ^ 30)
    (hQ : -2 ^ 30 ≤ Q ∧ Q < 2 ^ 30) : IsIntPair (folded I Q) := by
  rw [folded, IsIntPair, IsInt, IsInt]
  by_cases hneg : I < 0
  · rw [if_pos hneg]
    by_cases hpos : Q > 0
    · rw [if_pos hpos]
      dsimp only
      omega
    · rw [if_neg hpos]
      dsimp only
      omega
  · rw [if_neg hneg]
    dsimp only
    omega

/-- The gain keeps a short pair in the range of `int`. -/
theorem fits_of_short {I Q : ℤ} (hI : -2 ^ 30 ≤ I ∧ I < 2 ^ 30) (hQ : -2 ^ 30 ≤ Q ∧ Q < 2 ^ 30)
    (h : cordicGain * √((I : ℝ) ^ 2 + (Q : ℝ) ^ 2) < 2 ^ 31 - 22) : Fits I Q := by
  refine ⟨isIntPair_folded hI hQ, fun k hk => ?_⟩
  have hlength := magnitude_vectored_le (folded I Q) (Nat.succ_le_of_lt hk)
  rw [← cordicGain_eq, magnitude_folded] at hlength
  change _ ≤ cordicGain * √((I : ℝ) ^ 2 + (Q : ℝ) ^ 2) + 2 * ((11 : ℕ) : ℝ) at hlength
  have hbound : cordicGain * √((I : ℝ) ^ 2 + (Q : ℝ) ^ 2) + 2 * ((11 : ℕ) : ℝ) < 2 ^ 31 := by
    push_cast
    linarith
  exact ⟨isInt_of_abs_lt ((abs_fst_le_magnitude _).trans hlength) hbound,
    isInt_of_abs_lt ((abs_snd_le_magnitude _).trans hlength) hbound⟩

/-- A pair that keeps within the range of `int` is short. -/
theorem short_of_fits {I Q : ℤ} (h : Fits I Q) :
    cordicGain * √((I : ℝ) ^ 2 + (Q : ℝ) ^ 2) < 2 ^ 31 + 288 := by
  have hlast := (h.2 cordicMaxlevel cordicMaxlevel.lt_succ_self).1.2
  have hfst : ((vectored (folded I Q) (cordicMaxlevel + 1)).1 : ℝ) ≤ 2 ^ 31 - 1 := by
    exact_mod_cast Int.le_sub_one_of_lt hlast
  have hlower := (fst_close (folded_fst_nonneg I Q) cordicMaxlevel).2
  rw [← cordicGain_eq, magnitude_folded] at hlower
  change cordicGain * √((I : ℝ) ^ 2 + (Q : ℝ) ^ 2) ≤ _ * (1 + (1 / 2 ^ 11) ^ 2 / 2)
    + 3 * ((11 : ℕ) : ℝ) at hlower
  push_cast at hlower
  linarith

/-- **The amplitude overflows when its length times the gain does not fit.** Both components are in
the range that `ebpp_transform_dd_single` passes. While `CG * √(I ^ 2 + Q ^ 2)` is less than
`2 ^ 31 - 22` no value leaves the range of `int` and the amplitude is not negative; from
`2 ^ 31 + 288` on a value does. -/
theorem cordicAmp_range (g : Bool) {I Q : ℤ} (hI : -2 ^ 30 ≤ I ∧ I < 2 ^ 30)
    (hQ : -2 ^ 30 ≤ Q ∧ Q < 2 ^ 30) :
    (cordicGain * √((I : ℝ) ^ 2 + (Q : ℝ) ^ 2) < 2 ^ 31 - 22 →
        ∃ R, cordicAmp (.strict g) I Q = .ok R ∧ 0 ≤ R) ∧
      (2 ^ 31 + 288 ≤ cordicGain * √((I : ℝ) ^ 2 + (Q : ℝ) ^ 2) →
        cordicAmp (.strict g) I Q = .error .overflow) := by
  have hI' : IsInt I := ⟨by omega, by omega⟩
  have hQ' : IsInt Q := ⟨by omega, by omega⟩
  constructor
  · intro hshort
    have hfits := fits_of_short hI hQ hshort
    exact ⟨_, cordicAmp_of_fits g hI' hQ' hfits, amplitude_nonneg g I Q⟩
  · intro hlong
    exact cordicAmp_of_not_fits g hI' hQ' fun hfits => absurd (short_of_fits hfits) (not_lt.2 hlong)

theorem cordicAmp_range_largest :
    (cordicGain * √(((2 ^ 30 - 1 : ℤ) : ℝ) ^ 2 + ((2 ^ 30 - 1 : ℤ) : ℝ) ^ 2) < 2 ^ 31 - 22 →
        ∃ R, cordicAmp (.strict true) (2 ^ 30 - 1) (2 ^ 30 - 1) = .ok R ∧ 0 ≤ R) ∧
      (2 ^ 31 + 288 ≤ cordicGain * √(((2 ^ 30 - 1 : ℤ) : ℝ) ^ 2 + ((2 ^ 30 - 1 : ℤ) : ℝ) ^ 2) →
        cordicAmp (.strict true) (2 ^ 30 - 1) (2 ^ 30 - 1) = .error .overflow) :=
  cordicAmp_range true (by decide) (by decide)

/-- The largest pair overflows in the third turn. -/
theorem cordicAmp_overflows :
    cordicAmp (.strict true) (2 ^ 30 - 1) (2 ^ 30 - 1) = .error .overflow := by
  decide

/-! ## The silent pairs -/

/-- The pairs without an amplitude: the correction of the gain takes the amplitude `1` away. -/
def Silent (ignoreGain : Bool) (I Q : ℤ) : Prop :=
  I = 0 ∧ (Q = 0 ∨ (ignoreGain = false ∧ Q = 1))

instance (g : Bool) (I Q : ℤ) : Decidable (Silent g I Q) := inferInstanceAs (Decidable (_ ∧ _))

theorem corrected_pos (g : Bool) {x : ℤ} (h : 2 ≤ x) : 0 < corrected g x := by
  rw [corrected, cordicGain64]
  cases g with
  | false =>
    rw [if_neg Bool.false_ne_true]
    omega
  | true =>
    rw [if_pos rfl]
    omega

theorem fst_vectored_one (v : ℤ × ℤ) : (vectored v 1).1 = v.1 + |v.2| := by
  rw [vectored, vectored, rotate, pow_zero]
  by_cases h : 0 ≤ v.2
  · rw [if_pos h, abs_of_nonneg h]
    simp
  · rw [if_neg h, abs_of_neg (not_le.1 h)]
    simp [sub_eq_add_neg]

theorem fst_add_abs_folded (I Q : ℤ) : (folded I Q).1 + |(folded I Q).2| = |I| + |Q| := by
  rw [folded]
  by_cases hneg : I < 0
  · rw [if_pos hneg]
    by_cases hpos : Q > 0
    · rw [if_pos hpos, abs_of_neg hneg, abs_of_pos hpos]
      dsimp only
      rw [abs_of_pos (neg_pos.2 hneg), add_comm]
    · rw [if_neg hpos, abs_of_neg hneg, abs_of_nonpos (not_lt.1 hpos), add_comm]
  · rw [if_neg hneg, abs_of_nonneg (not_lt.1 hneg)]

/-- No turn makes the first component less, and the first turn makes it `|I| + |Q|`. -/
theorem add_abs_le_vectored (I Q : ℤ) :
    |I| + |Q| ≤ (vectored (folded I Q) (cordicMaxlevel + 1)).1 := by
  have hfirst : (vectored (folded I Q) 1).1 ≤ (vectored (folded I Q) (cordicMaxlevel + 1)).1 :=
    fst_mono (folded I Q) (by decide)
  rwa [fst_vectored_one, fst_add_abs_folded] at hfirst

theorem amplitude_pos_of_two_le (g : Bool) {I Q : ℤ} (h : 2 ≤ |I| + |Q|) : 0 < amplitude g I Q :=
  corrected_pos g (h.trans (add_abs_le_vectored I Q))

/-- Without the correction of the gain the amplitude is at least `|I| + |Q|`. -/
theorem add_abs_le_amplitude (I Q : ℤ) : |I| + |Q| ≤ amplitude true I Q :=
  add_abs_le_vectored I Q

/-- **The amplitude is zero for the silent pairs alone.** -/
theorem amplitude_eq_zero_iff (g : Bool) (I Q : ℤ) : amplitude g I Q = 0 ↔ Silent g I Q := by
  by_cases h : 2 ≤ |I| + |Q|
  · have hpos := amplitude_pos_of_two_le g h
    have hloud : ¬Silent g I Q := by
      rintro ⟨rfl, rfl | ⟨-, rfl⟩⟩ <;> simp at h
    simp only [hloud, iff_false]
    omega
  · -- five pairs are left, and each of them is run
    have hcases : (I = 0 ∧ Q = 0) ∨ (I = 0 ∧ Q = 1) ∨ (I = 0 ∧ Q = -1) ∨ (I = 1 ∧ Q = 0) ∨
        (I = -1 ∧ Q = 0) := by
      rw [Int.abs_eq_natAbs, Int.abs_eq_natAbs] at h
      omega
    rcases hcases with ⟨rfl, rfl⟩ | ⟨rfl, rfl⟩ | ⟨rfl, rfl⟩ | ⟨rfl, rfl⟩ | ⟨rfl, rfl⟩ <;>
      cases g <;> decide

/-- Without the correction of the gain the silent pair is `(0, 0)`. -/
theorem silent_true_iff {I Q : ℤ} : Silent true I Q ↔ I = 0 ∧ Q = 0 := by
  simp [Silent]

end LiberaDaq.Transform
