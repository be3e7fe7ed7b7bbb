import LiberaDaq.Cspi.Params
import LiberaDaq.Transform.Arithmetic
import Mathlib.Algebra.BigOperators.Intervals
import Mathlib.Analysis.Real.Sqrt

/-!
# The single pass of ADC data

`ebpp_transform_adc_common` looks for the first sample above a threshold and computes a position
from the energies of the samples around it (`single_pass_window`). The formulas of the position
divide by sums of amplitudes, which are not zero if and only if the samples around the trigger are
not all zero in the channels of the sum (`denominators_iff`). The threshold may be negative, and one
channel is enough for a trigger, so that this is not always so.
-/

namespace LiberaDaq.Transform.SinglePass

open Cspi

/-! ## The code -/

/-- The four channels. -/
inductive Channel
  | a | b | c | d
  deriving DecidableEq, Repr

/-- `CSPI_ADC_ATOM`. -/
structure AdcAtom where
  chD : BitVec 16
  chC : BitVec 16
  chB : BitVec 16
  chA : BitVec 16
  deriving DecidableEq, Repr

/-- The sample of a channel, as a value of `int`. -/
def AdcAtom.sample (x : AdcAtom) : Channel → ℤ
  | .a => x.chA.toInt
  | .b => x.chB.toInt
  | .c => x.chC.toInt
  | .d => x.chD.toInt

/-- A buffer of atoms, of 8 bytes each, in a memory with addresses of 32 bits. -/
structure AdcBuffer where
  atoms : List AdcAtom
  fits : 8 * atoms.length ≤ 2 ^ 32

/-- The argument `count`. -/
def AdcBuffer.count (x : AdcBuffer) : Word := BitVec.ofNat 32 x.atoms.length

/-- An atom is read. -/
def AdcBuffer.read (x : AdcBuffer) (i : ℕ) : Except Fault AdcAtom :=
  match x.atoms[i]? with
  | some atom => .ok atom
  | none => .error .outside

/-- `cache.sp`, with values that the validators accept. -/
structure SpParams where
  threshold : Word
  nBefore : Word
  nAfter : Word
  threshold_valid : ebppIsValidInt16 threshold = true
  nBefore_valid : ebppIsValidSpint nBefore = true
  nAfter_valid : ebppIsValidSpint nAfter = true

/-- A channel is above the threshold. -/
def AdcAtom.exceeds (x : AdcAtom) (threshold : ℤ) : Bool :=
  x.sample .a > threshold || x.sample .b > threshold || x.sample .c > threshold ||
    x.sample .d > threshold

/-- The first loop, with `n` atoms left: where it stops. -/
def searchTrigger (x : AdcBuffer) (threshold : ℤ) : ℕ → ℕ → Except Fault ℕ
  | 0, i => pure i
  | n + 1, i => do
    let atom ← x.read i
    if atom.exceeds threshold then pure i else searchTrigger x threshold n (i + 1)

/-- `ea`, `eb`, `ec` and `ed`. The sums of squares are integers that a `double` holds. -/
abbrev Energies := Channel → ℤ

/-- The second loop, with `n` atoms left. -/
def sumWindow (x : AdcBuffer) : ℕ → ℕ → Energies → Except Fault Energies
  | 0, _, e => pure e
  | n + 1, i, e => do
    let atom ← x.read i
    sumWindow x n (i + 1) fun ch => e ch + atom.sample ch * atom.sample ch

/-- The part of `ebpp_transform_adc_common` before the position: `trigger` and the energies. -/
def singlePass (sp : SpParams) (x : AdcBuffer) : Except Fault (Word × Energies) := do
  let i ← searchTrigger x sp.threshold.toInt x.count.toNat 0
  let trigger : Word := BitVec.ofNat 32 i
  if trigger < x.count then
    let j := if trigger < sp.nBefore then 0 else trigger - sp.nBefore
    let k := if trigger + sp.nAfter + 1 < x.count then trigger + sp.nAfter + 1 else x.count
    let e ← sumWindow x (k.toNat - j.toNat) j.toNat fun _ => 0
    pure (trigger, e)
  else pure (trigger, fun _ => 0)

/-! ## The window -/

variable {x : AdcBuffer} {threshold : ℤ} {sp : SpParams} {n i t : ℕ}

/-- The atom at an index of the buffer. -/
def AdcBuffer.atom (x : AdcBuffer) (i : ℕ) : AdcAtom := x.atoms.getD i ⟨0, 0, 0, 0⟩

/-- The first index at which a channel is above the threshold, or else the number of atoms. -/
structure AdcBuffer.FirstAbove (x : AdcBuffer) (threshold : ℤ) (t : ℕ) : Prop where
  le : t ≤ x.atoms.length
  before : ∀ i < t, (x.atom i).exceeds threshold = false
  above : t < x.atoms.length → (x.atom t).exceeds threshold = true

/-- The sums of the squares over a set of indices. -/
def AdcBuffer.energies (x : AdcBuffer) (s : Finset ℕ) : Energies :=
  fun ch => ∑ i ∈ s, (x.atom i).sample ch ^ 2

/-- The indices around a trigger. -/
def SpParams.window (sp : SpParams) (x : AdcBuffer) (t : ℕ) : Finset ℕ :=
  Finset.Icc (max 0 (t - sp.nBefore.toNat)) (min (t + sp.nAfter.toNat) (x.atoms.length - 1))

theorem read_eq (h : i < x.atoms.length) : x.read i = .ok (x.atom i) := by
  have hget : x.atoms[i]? = some x.atoms[i] := List.getElem?_eq_getElem h
  rw [AdcBuffer.read, AdcBuffer.atom, List.getD_eq_getElem _ _ h, hget]

/-- The search finds the first atom above the threshold, of those from an index on. -/
theorem searchTrigger_eq (h : i + n = x.atoms.length)
    (hbefore : ∀ k < i, (x.atom k).exceeds threshold = false) :
    ∃ t, searchTrigger x threshold n i = .ok t ∧ x.FirstAbove threshold t := by
  induction n generalizing i with
  | zero => exact ⟨i, rfl, by omega, hbefore, fun hlt => absurd hlt (by omega)⟩
  | succ n ih =>
    rw [searchTrigger, read_eq (by omega), ok_bind]
    split
    · next habove => exact ⟨i, rfl, by omega, hbefore, fun _ => habove⟩
    · next hbelow =>
      refine ih (by omega) fun k hk => ?_
      rcases Nat.lt_succ_iff_lt_or_eq.1 hk with hlt | rfl
      · exact hbefore k hlt
      · exact Bool.eq_false_iff.2 hbelow

/-- The loop adds the energies of the indices that are left. -/
theorem sumWindow_eq {e : Energies} (h : i + n ≤ x.atoms.length) :
    sumWindow x n i e = .ok (e + x.energies (Finset.Ico i (i + n))) := by
  induction n generalizing i e with
  | zero =>
    have hempty : x.energies (Finset.Ico i (i + 0)) = 0 := by
      funext ch
      rw [AdcBuffer.energies, Nat.add_zero, Finset.Ico_self, Finset.sum_empty]
      rfl
    rw [hempty, add_zero]
    rfl
  | succ n ih =>
    rw [sumWindow, read_eq (by omega), ok_bind, ih (by omega)]
    refine congrArg _ (funext fun ch => ?_)
    have hfirst : i < i + (n + 1) := by omega
    simp only [Pi.add_apply, AdcBuffer.energies]
    rw [Finset.sum_eq_sum_Ico_succ_bot hfirst, add_assoc, Nat.add_right_comm i 1 n, Nat.add_assoc i,
      sq]

theorem toNat_of_spint {w : Word} (h : ebppIsValidSpint w = true) : w.toNat ≤ 1023 := by
  rw [ebppIsValidSpint, inRange, Bool.and_eq_true, decide_eq_true_iff, decide_eq_true_iff,
    BitVec.toInt_eq_toNat_cond] at h
  split at h <;> omega

theorem toNat_count : x.count.toNat = x.atoms.length := by
  have hfits := x.fits
  rw [AdcBuffer.count, BitVec.toNat_ofNat, Nat.mod_eq_of_lt (by omega)]

/-- The ends of the second loop. -/
theorem window_eq {trigger : Word} (ht : trigger.toNat = t) (hlt : t < x.atoms.length) :
    let j := if trigger < sp.nBefore then 0 else trigger - sp.nBefore
    let k := if trigger + sp.nAfter + 1 < x.count then trigger + sp.nAfter + 1 else x.count
    j.toNat + (k.toNat - j.toNat) ≤ x.atoms.length ∧
      Finset.Ico j.toNat (j.toNat + (k.toNat - j.toNat)) = sp.window x t := by
  have hfits := x.fits
  have hbefore := toNat_of_spint sp.nBefore_valid
  have hafter := toNat_of_spint sp.nAfter_valid
  have hj : (if trigger < sp.nBefore then 0 else trigger - sp.nBefore).toNat =
      t - sp.nBefore.toNat := by
    split
    · next h =>
      rw [BitVec.lt_def, ht] at h
      rw [Nat.sub_eq_zero_of_le h.le]
      rfl
    · next h =>
      rw [BitVec.lt_def, ht, Nat.not_lt] at h
      rw [BitVec.toNat_sub_of_le (BitVec.le_def.2 (ht ▸ h)), ht]
  have hsum : (trigger + sp.nAfter + 1).toNat = t + sp.nAfter.toNat + 1 := by
    rw [BitVec.toNat_add, BitVec.toNat_add, ht, show (1 : Word).toNat = 1 from rfl]
    omega
  have hk : (if trigger + sp.nAfter + 1 < x.count then trigger + sp.nAfter + 1
      else x.count).toNat = min (t + sp.nAfter.toNat + 1) x.atoms.length := by
    split
    · next h =>
      rw [BitVec.lt_def, hsum, toNat_count] at h
      rw [hsum]
      omega
    · next h =>
      rw [BitVec.lt_def, hsum, toNat_count] at h
      rw [toNat_count]
      omega
  intro j k
  change (if trigger < sp.nBefore then 0 else trigger - sp.nBefore).toNat = _ at hj
  rw [show j.toNat = _ from hj, show k.toNat = _ from hk]
  refine ⟨by omega, ?_⟩
  ext i
  rw [SpParams.window, Finset.mem_Ico, Finset.mem_Icc]
  omega

/-- There is one index that is the first above the threshold. -/
theorem AdcBuffer.FirstAbove.unique {t' : ℕ} (h : x.FirstAbove threshold t)
    (h' : x.FirstAbove threshold t') : t = t' := by
  rcases Nat.lt_trichotomy t t' with hlt | heq | hlt
  · have habove := h.above (hlt.trans_le h'.le)
    rw [h'.before t hlt] at habove
    cases habove
  · exact heq
  · have habove := h'.above (hlt.trans_le h.le)
    rw [h.before t' hlt] at habove
    cases habove

theorem exists_searchTrigger (x : AdcBuffer) (threshold : ℤ) :
    ∃ t, searchTrigger x threshold x.atoms.length 0 = .ok t ∧ x.FirstAbove threshold t :=
  searchTrigger_eq (Nat.zero_add x.atoms.length) fun k hk => absurd hk (Nat.not_lt_zero k)

/-- The trigger and the energies of a single pass. -/
theorem singlePass_eq (h : x.FirstAbove sp.threshold.toInt t) : singlePass sp x =
    .ok (BitVec.ofNat 32 t, if t < x.atoms.length then x.energies (sp.window x t) else 0) := by
  have hfits := x.fits
  obtain ⟨t', hsearch, hfirst⟩ := exists_searchTrigger x sp.threshold.toInt
  obtain rfl := hfirst.unique h
  have hle := hfirst.le
  have htrigger : (BitVec.ofNat 32 t').toNat = t' := by
    rw [BitVec.toNat_ofNat, Nat.mod_eq_of_lt (by omega)]
  rw [singlePass, toNat_count, hsearch, ok_bind]
  dsimp only
  by_cases hlt : t' < x.atoms.length
  · have hfound : BitVec.ofNat 32 t' < x.count := by rwa [BitVec.lt_def, htrigger, toNat_count]
    obtain ⟨hinside, hwindow⟩ : _ ∧ _ = sp.window x t' := window_eq htrigger hlt
    rw [if_pos hfound, if_pos hlt, sumWindow_eq hinside, hwindow, ok_bind]
    exact congrArg (fun e => Except.ok (_, e)) (zero_add _)
  · have hnone : ¬BitVec.ofNat 32 t' < x.count := by rwa [BitVec.lt_def, htrigger, toNat_count]
    rw [if_neg hnone, if_neg hlt]
    rfl

/-- What a single pass gives: the trigger, and the energies around it. Without a trigger no energy
is summed up. -/
structure AdcBuffer.PassResult (x : AdcBuffer) (sp : SpParams) (trigger : Word) (e : Energies) :
    Prop where
  first : x.FirstAbove sp.threshold.toInt trigger.toNat
  around : trigger.toNat < x.atoms.length → e = x.energies (sp.window x trigger.toNat)
  untriggered : trigger.toNat = x.atoms.length → e = 0

/-- **The window of a single pass.** Every atom that is read is one of the buffer; the trigger is
the first atom above the threshold, and the energies are those of the atoms around it. -/
theorem single_pass_window (sp : SpParams) (x : AdcBuffer) :
    ∃ trigger e, singlePass sp x = .ok (trigger, e) ∧ x.PassResult sp trigger e := by
  have hfits := x.fits
  obtain ⟨t, -, hfirst⟩ := exists_searchTrigger x sp.threshold.toInt
  have hle := hfirst.le
  have htrigger : (BitVec.ofNat 32 t).toNat = t := by
    rw [BitVec.toNat_ofNat, Nat.mod_eq_of_lt (by omega)]
  refine ⟨_, _, singlePass_eq hfirst, ?_⟩
  constructor
  · rwa [htrigger]
  · rw [htrigger]
    exact fun hlt => if_pos hlt
  · rw [htrigger]
    exact fun heq => if_neg heq.ge.not_gt

/-- A `double` holds the energies and every sum on the way to them. -/
theorem energies_lt (ch : Channel) : x.energies (sp.window x t) ch < 2 ^ 53 := by
  have hsample : ∀ i ∈ sp.window x t, (x.atom i).sample ch ^ 2 ≤ 2 ^ 30 := by
    intro i _
    have hbound : ∀ w : BitVec 16, w.toInt ^ 2 ≤ 2 ^ 30 := by
      intro w
      have hlow := w.le_toInt
      have hhigh := w.toInt_lt
      have hsq : w.toInt ^ 2 ≤ (2 ^ 15 : ℤ) ^ 2 := sq_le_sq' (by omega) (by omega)
      omega
    cases ch <;> exact hbound _
  have hcard : (sp.window x t).card ≤ 2047 := by
    have hbefore := toNat_of_spint sp.nBefore_valid
    have hafter := toNat_of_spint sp.nAfter_valid
    rw [SpParams.window, Nat.card_Icc]
    omega
  have hsum := Finset.sum_le_card_nsmul _ _ _ hsample
  rw [nsmul_eq_mul] at hsum
  rw [AdcBuffer.energies]
  omega

/-! ## The position -/

/-- A quotient of two `double`. A division by zero gives no number. -/
noncomputable def divide (a b : ℝ) : Except Fault ℝ :=
  if b = 0 then .error .divZero else .ok (a / b)

/-- `SP_POS_FNC`: `x`, `y` and `sum` from the amplitudes. -/
abbrev SpPosFnc := ℝ → ℝ → ℝ → ℝ → Except Fault (ℝ × ℝ × ℝ)

/-- `sp_pos_straight`. -/
noncomputable def spPosStraight : SpPosFnc := fun aa ab ac ad => do
  let sum := aa + ab + ac + ad
  let px ← divide (aa + ad - ac - ab) sum
  let py ← divide (aa + ab - ac - ad) sum
  pure (px, py, sum)

/-- `sp_pos_rot`. -/
noncomputable def spPosRot : SpPosFnc := fun aa ab ac ad => do
  let sum := aa + ab + ac + ad
  let px ← divide (aa - ac) (aa + ac)
  let py ← divide (ab - ad) (ab + ad)
  pure (px, py, sum)

/-- The members of `cache` for a position: `Kx`, `Ky`, `Xoffset` and `Yoffset`. -/
structure Scale where
  kx : Word
  ky : Word
  xOffset : Word
  yOffset : Word

/-- `CSPI_ADC_SP_ATOM`, with the position before its conversion to `int`. -/
structure AdcSpAtom where
  trigger : Word
  threshold : Word
  nBefore : Word
  nAfter : Word
  px : ℝ
  py : ℝ
  sum : ℝ

/-- `ebpp_transform_adc_common`. -/
noncomputable def transformAdcCommon (scale : Scale) (sp : SpParams) (spPos : SpPosFnc)
    (x : AdcBuffer) : Except Fault AdcSpAtom := do
  let (trigger, e) ← singlePass sp x
  let atom := AdcSpAtom.mk trigger sp.threshold sp.nBefore sp.nAfter
  if trigger < x.count then
    let (px, py, sum) ← spPos √(e .a) √(e .b) √(e .c) √(e .d)
    pure (atom (scale.kx.toInt * px - scale.xOffset.toInt)
      (scale.ky.toInt * py - scale.yOffset.toInt) sum)
  else pure (atom 0 0 0)

/-- The two geometries: `ebpp_transform_adc_sp` and `ebpp_transform_adc_sp_rot`. -/
inductive Geometry
  | straight | rotated
  deriving DecidableEq, Repr

noncomputable def Geometry.spPos : Geometry → SpPosFnc
  | .straight => spPosStraight
  | .rotated => spPosRot

/-- What the position of a geometry divides by, from the amplitudes of the channels. -/
noncomputable def Geometry.denominators (amp : Channel → ℝ) : Geometry → List ℝ
  | .straight => [amp .a + amp .b + amp .c + amp .d]
  | .rotated => [amp .a + amp .c, amp .b + amp .d]

/-- The square roots of the energies. -/
noncomputable def amplitude (e : Energies) (ch : Channel) : ℝ := √(e ch)

/-- If a single pass finds a trigger, no denominator is zero. -/
def DenominatorsNonzero (g : Geometry) (sp : SpParams) (x : AdcBuffer) : Prop :=
  ∀ trigger e, singlePass sp x = .ok (trigger, e) → trigger < x.count →
    ∀ d ∈ g.denominators (amplitude e), d ≠ 0

variable {g : Geometry} {amp : Channel → ℝ} {s : Finset ℕ}

theorem divide_zero (a : ℝ) : divide a 0 = .error .divZero := if_pos rfl

theorem divide_ok {a b : ℝ} (h : b ≠ 0) : divide a b = .ok (a / b) := if_neg h

/-- There is a position if and only if no denominator is zero. -/
theorem spPos_ok : (∃ r, g.spPos (amp .a) (amp .b) (amp .c) (amp .d) = .ok r) ↔
    ∀ d ∈ g.denominators amp, d ≠ 0 := by
  cases g with
  | straight =>
    simp only [Geometry.spPos, spPosStraight, Geometry.denominators, List.mem_singleton, forall_eq]
    by_cases h : amp .a + amp .b + amp .c + amp .d = 0
    · simp [h, divide_zero]
    · simp [h, divide_ok, pure, Except.pure]
  | rotated =>
    simp only [Geometry.spPos, spPosRot, Geometry.denominators, List.mem_cons, List.not_mem_nil,
      or_false, forall_eq_or_imp, forall_eq]
    by_cases hx : amp .a + amp .c = 0
    · simp [hx, divide_zero]
    · by_cases hy : amp .b + amp .d = 0
      · simp [hx, hy, divide_zero, divide_ok]
      · simp [hx, hy, divide_ok, pure, Except.pure]

/-- The operator has a result if and only if no denominator is zero. -/
theorem transformAdcCommon_ok (scale : Scale) :
    (∃ o, transformAdcCommon scale sp g.spPos x = .ok o) ↔ DenominatorsNonzero g sp x := by
  obtain ⟨t, -, hfirst⟩ := exists_searchTrigger x sp.threshold.toInt
  have hpass := singlePass_eq hfirst
  generalize (if t < x.atoms.length then x.energies (sp.window x t) else 0) = e at hpass
  have hresult : DenominatorsNonzero g sp x ↔ (BitVec.ofNat 32 t < x.count →
      ∀ d ∈ g.denominators (amplitude e), d ≠ 0) := by
    constructor
    · exact fun h => h _ e hpass
    · intro h trigger e' he'
      rw [hpass] at he'
      cases he'
      exact h
  rw [hresult, ← spPos_ok, transformAdcCommon, hpass, ok_bind]
  dsimp only
  by_cases hlt : BitVec.ofNat 32 t < x.count
  · rw [if_pos hlt]
    simp only [hlt, true_imp_iff, bind_ok]
    constructor
    · rintro ⟨_, r, hr, -⟩
      exact ⟨r, hr⟩
    · rintro ⟨r, hr⟩
      exact ⟨_, r, hr, rfl⟩
  · rw [if_neg hlt]
    exact iff_of_true ⟨_, rfl⟩ fun h => absurd h hlt

theorem amplitude_nonneg (e : Energies) (ch : Channel) : 0 ≤ amplitude e ch := Real.sqrt_nonneg _

/-- The amplitude of a channel is zero if and only if its samples are. -/
theorem amplitude_eq_zero {ch : Channel} :
    amplitude (x.energies s) ch = 0 ↔ ∀ i ∈ s, (x.atom i).sample ch = 0 := by
  have hsquares : ∀ i ∈ s, 0 ≤ (x.atom i).sample ch ^ 2 := fun i _ => sq_nonneg _
  have hnonneg : (0 : ℝ) ≤ (x.energies s ch : ℤ) := by
    exact_mod_cast Finset.sum_nonneg hsquares
  rw [amplitude, Real.sqrt_eq_zero hnonneg, Int.cast_eq_zero, AdcBuffer.energies,
    Finset.sum_eq_zero_iff_of_nonneg hsquares]
  simp only [sq_eq_zero_iff]

/-- A sample of one of the channels is not zero, at one of the indices. -/
def AdcBuffer.Lit (x : AdcBuffer) (s : Finset ℕ) (chs : List Channel) : Prop :=
  ∃ i ∈ s, ∃ ch ∈ chs, (x.atom i).sample ch ≠ 0

/-- The channels in the sums that a geometry divides by. -/
def Geometry.groups : Geometry → List (List Channel)
  | .straight => [[.a, .b, .c, .d]]
  | .rotated => [[.a, .c], [.b, .d]]

theorem sum_amplitude_nonneg (e : Energies) (chs : List Channel) :
    0 ≤ (chs.map (amplitude e)).sum := by
  refine List.sum_nonneg fun a ha => ?_
  obtain ⟨ch, -, rfl⟩ := List.mem_map.1 ha
  exact amplitude_nonneg e ch

/-- A sum of amplitudes is not zero if and only if one of its channels is lit. -/
theorem sum_ne_zero_iff {chs : List Channel} :
    (chs.map (amplitude (x.energies s))).sum ≠ 0 ↔ x.Lit s chs := by
  have hzero : (chs.map (amplitude (x.energies s))).sum = 0 ↔
      ∀ ch ∈ chs, amplitude (x.energies s) ch = 0 := by
    induction chs with
    | nil => simp
    | cons ch chs ih =>
      rw [List.map_cons, List.sum_cons, add_eq_zero_iff_of_nonneg (amplitude_nonneg _ _)
        (sum_amplitude_nonneg _ _), ih, List.forall_mem_cons]
  rw [Ne, hzero]
  simp only [amplitude_eq_zero, AdcBuffer.Lit]
  push Not
  exact ⟨fun ⟨ch, hch, i, hi, h⟩ => ⟨i, hi, ch, hch, h⟩,
    fun ⟨i, hi, ch, hch, h⟩ => ⟨ch, hch, i, hi, h⟩⟩

theorem denominators_eq : g.denominators amp = g.groups.map fun chs => (chs.map amp).sum := by
  cases g with
  | straight => simp [Geometry.denominators, Geometry.groups, add_assoc]
  | rotated => simp [Geometry.denominators, Geometry.groups]

theorem denominators_energies : (∀ d ∈ g.denominators (amplitude (x.energies s)), d ≠ 0) ↔
    ∀ chs ∈ g.groups, x.Lit s chs := by
  rw [denominators_eq, List.forall_mem_map]
  exact forall₂_congr fun chs _ => sum_ne_zero_iff

/-- **The denominators** of a single pass with a trigger are not zero, if and only if each of their
sums has a channel with a sample in the window that is not zero. -/
theorem denominators_iff (g : Geometry) (sp : SpParams) (x : AdcBuffer) :
    DenominatorsNonzero g sp x ↔ ∀ t < x.atoms.length, x.FirstAbove sp.threshold.toInt t →
      ∀ chs ∈ g.groups, x.Lit (sp.window x t) chs := by
  have hfits := x.fits
  constructor
  · intro h t hlt hfirst
    have hpass := singlePass_eq hfirst
    rw [if_pos hlt] at hpass
    refine denominators_energies.1 (h _ _ hpass ?_)
    rw [BitVec.lt_def, toNat_count, BitVec.toNat_ofNat, Nat.mod_eq_of_lt (by omega)]
    exact hlt
  · intro h trigger e hpass hlt
    obtain ⟨t, -, hfirst⟩ := exists_searchTrigger x sp.threshold.toInt
    have hle := hfirst.le
    rw [singlePass_eq hfirst] at hpass
    cases hpass
    rw [BitVec.lt_def, toNat_count, BitVec.toNat_ofNat, Nat.mod_eq_of_lt (by omega)] at hlt
    rw [if_pos hlt]
    exact denominators_energies.2 (h t hlt hfirst)

/-- In the straight geometry a threshold that is not negative is enough: the trigger itself is not
zero. -/
theorem straight_of_threshold (h : 0 ≤ sp.threshold.toInt) (hlt : t < x.atoms.length)
    (hfirst : x.FirstAbove sp.threshold.toInt t) : x.Lit (sp.window x t) [.a, .b, .c, .d] := by
  have hmem : t ∈ sp.window x t := by
    rw [SpParams.window, Finset.mem_Icc]
    omega
  have habove := hfirst.above hlt
  simp only [AdcAtom.exceeds, Bool.or_eq_true, decide_eq_true_eq] at habove
  obtain ((ha | hb) | hc) | hd := habove
  · exact ⟨t, hmem, .a, by simp, by omega⟩
  · exact ⟨t, hmem, .b, by simp, by omega⟩
  · exact ⟨t, hmem, .c, by simp, by omega⟩
  · exact ⟨t, hmem, .d, by simp, by omega⟩

/-! ## Examples -/

theorem fits_singleton (atom : AdcAtom) : 8 * [atom].length ≤ 2 ^ 32 := by
  rw [List.length_singleton]
  decide

/-- A buffer of one atom, in which channel A alone is not zero. -/
def oneAtom : AdcBuffer := ⟨[⟨0, 0, 0, 1⟩], fits_singleton _⟩

theorem valid_zero : ebppIsValidInt16 0 = true := by decide

theorem valid_one : ebppIsValidInt16 1 = true := by decide

theorem validSpint_one : ebppIsValidSpint 1 = true := by decide

/-- A threshold that the atom is above, and one that it only reaches. -/
def thresholdZero : SpParams := ⟨0, 1, 1, valid_zero, validSpint_one, validSpint_one⟩

def thresholdOne : SpParams := ⟨1, 1, 1, valid_one, validSpint_one, validSpint_one⟩

/-- Without a trigger no energy is summed up, not even of the last atoms. -/
theorem no_trigger_no_energy : ¬∀ (sp : SpParams) (x : AdcBuffer),
    ∃ trigger e, singlePass sp x = .ok (trigger, e) ∧
      x.FirstAbove sp.threshold.toInt trigger.toNat ∧
      e = x.energies (sp.window x trigger.toNat) := by
  intro h
  obtain ⟨trigger, e, hpass, hfirst, henergies⟩ := h thresholdOne oneAtom
  have hnone : oneAtom.FirstAbove thresholdOne.threshold.toInt 1 :=
    ⟨by decide, by decide, by decide⟩
  rw [singlePass_eq hnone] at hpass
  cases hpass
  have hsum : oneAtom.energies (thresholdOne.window oneAtom 1) .a = 1 := by decide
  exact absurd ((congrFun henergies .a).trans hsum) (by decide)

/-- Channel A of the only atom triggers, and B and D have no energy. -/
theorem only_channel_a : ¬∀ (g : Geometry) (sp : SpParams) (x : AdcBuffer),
    DenominatorsNonzero g sp x := by
  intro h
  have hfirst : oneAtom.FirstAbove thresholdZero.threshold.toInt 0 :=
    ⟨by decide, by decide, by decide⟩
  have hlit := denominators_energies.1
    (h .rotated thresholdZero oneAtom _ _ (singlePass_eq hfirst) (by decide))
  obtain ⟨i, hi, ch, hch, hne⟩ := hlit [.b, .d] (by decide)
  have hzero : ∀ i ∈ thresholdZero.window oneAtom 0, ∀ ch ∈ [Channel.b, Channel.d],
      (oneAtom.atom i).sample ch = 0 := by decide
  exact hne (hzero i hi ch hch)

end LiberaDaq.Transform.SinglePass
