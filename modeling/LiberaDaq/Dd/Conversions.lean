import LiberaDaq.Dd.Times
import LiberaDaq.Numeric.Rescale
import Mathlib.Order.Bounds.Basic

/-!
# Converting times

A time is converted between its units by the clock rates alone: system time and LST (`st2lst`,
`lst2st`), machine time and LMT (`mt2lmt`, `lmt2mt`). These conversions round to a tick of the
coarser unit and else lose nothing (`units_round_trip`). LST and LMT are converted into each other
from a pair of both that was read at one moment (`lst2lmt`, `lmt2lst`). The distance from that
moment is limited, so that no product overflows, and the result is the exact one
(`conversions_exact`).
-/

namespace LiberaDaq.Dd

open LiberaDaq.Cspi
open LiberaDaq.Numeric

variable {g : Clocks}

/-! ## System time and LST -/

theorem lscFreq_toNat : lscFreq.toNat = 125000000 := rfl

theorem nsInSecond_toNat : nsInSecond.toNat = 1000000000 := rfl

/-- A member of `struct timespec` that is not negative. -/
theorem signExtend_of_nonneg {x : Word} (h : 0 ≤ x.toInt) : x.signExtend 64 = wide x := by
  have hmsb : x.msb = false := by
    rw [BitVec.msb_eq_toInt]
    simpa using h
  exact BitVec.signExtend_eq_setWidth_of_msb_false hmsb

theorem toNat_of_nonneg {x : Word} (h : 0 ≤ x.toInt) : x.toNat < 2 ^ 31 := by
  rw [BitVec.toInt_eq_toNat_cond] at h
  have := x.isLt
  split at h <;> omega

/-- A system time whose members are in range. -/
structure Timespec.Valid (st : Timespec) : Prop where
  sec : 0 ≤ st.tvSec.toInt
  nsec : 0 ≤ st.tvNsec.toInt
  nsec_lt : st.tvNsec.toInt < 1000000000

theorem Timespec.Valid.tvNsec_lt {st : Timespec} (h : st.Valid) : st.tvNsec.toNat < 1000000000 := by
  have hlt := toNat_of_nonneg h.nsec
  have hnsec := h.nsec_lt
  rw [BitVec.toInt_eq_toNat_of_lt (by omega)] at hnsec
  exact_mod_cast hnsec

/-- The LST of a system time: no product and no sum overflows. -/
structure Timespec.Exact (st : Timespec) : Prop where
  sec : st.tvSec.toNat * lscFreq.toNat < 2 ^ 64
  nsec : st.tvNsec.toNat * lscFreq.toNat < 2 ^ 64
  lst : (st2lst st).toNat = st.tvSec.toNat * lscFreq.toNat +
    st.tvNsec.toNat * lscFreq.toNat / nsInSecond.toNat

theorem Timespec.Valid.exact {st : Timespec} (h : st.Valid) : st.Exact := by
  have hsec := toNat_of_nonneg h.sec
  have hnsec := h.tvNsec_lt
  have hsecs : st.tvSec.toNat * lscFreq.toNat < 2 ^ 64 := by
    rw [lscFreq_toNat]
    omega
  have hnsecs : st.tvNsec.toNat * lscFreq.toNat < 2 ^ 64 := by
    rw [lscFreq_toNat]
    omega
  refine ⟨hsecs, hnsecs, ?_⟩
  rw [st2lst, signExtend_of_nonneg h.sec, signExtend_of_nonneg h.nsec, BitVec.toNat_add,
    divU64_toNat, BitVec.toNat_mul, BitVec.toNat_mul, wide_toNat, wide_toNat, wide_toNat,
    Nat.mod_eq_of_lt hsecs, Nat.mod_eq_of_lt hnsecs, Nat.mod_eq_of_lt]
  rw [lscFreq_toNat, nsInSecond_toNat]
  omega

/-- The members of the system time of an LST that has not yet run out of seconds. -/
theorem lst2st_toNat {lst : HwTime} (h : lst.toNat / lscFreq.toNat < 2 ^ 31) :
    (lst2st lst).tvSec.toNat = lst.toNat / lscFreq.toNat ∧
      (lst2st lst).tvNsec.toNat = lst.toNat % lscFreq.toNat * 8 := by
  have hratio : nsInSecond / lscFreq = 8 := by decide
  simp only [lst2st, divU64Rem, hratio, BitVec.toNat_setWidth, BitVec.toNat_mul, divU64_toNat,
    BitVec.toNat_umod, wide_toNat]
  rw [lscFreq_toNat] at h ⊢
  constructor
  · exact Nat.mod_eq_of_lt (by omega)
  · rw [show (8 : Word).toNat = 8 from rfl]
    omega

theorem valid_lst2st {lst : HwTime} (h : lst.toNat / lscFreq.toNat < 2 ^ 31) :
    (lst2st lst).Valid := by
  obtain ⟨hsec, hnsec⟩ := lst2st_toNat h
  rw [lscFreq_toNat] at h hsec hnsec
  have hint : ∀ x : Word, x.toNat < 2 ^ 31 → x.toInt = x.toNat := fun x hx =>
    BitVec.toInt_eq_toNat_of_lt (by omega)
  constructor
  · rw [hint _ (by omega)]
    exact Int.natCast_nonneg _
  · rw [hint _ (by omega)]
    exact Int.natCast_nonneg _
  · rw [hint _ (by omega)]
    omega

theorem st2lst_lst2st {lst : HwTime} (h : lst.toNat / lscFreq.toNat < 2 ^ 31) :
    st2lst (lst2st lst) = lst := by
  obtain ⟨hsec, hnsec⟩ := lst2st_toNat h
  apply BitVec.eq_of_toNat_eq
  rw [(valid_lst2st h).exact.lst, hsec, hnsec, lscFreq_toNat, nsInSecond_toNat]
  omega

/-- The nanoseconds are rounded down to a tick of eight. -/
theorem lst2st_st2lst {st : Timespec} (h : st.Valid) : (lst2st (st2lst st)).tvSec = st.tvSec ∧
    (lst2st (st2lst st)).tvNsec.toNat = st.tvNsec.toNat / 8 * 8 := by
  have hlst := h.exact.lst
  have hsec := toNat_of_nonneg h.sec
  have hnsec := h.tvNsec_lt
  rw [lscFreq_toNat, nsInSecond_toNat] at hlst
  have hsecs : (st2lst st).toNat / lscFreq.toNat < 2 ^ 31 := by
    rw [lscFreq_toNat]
    omega
  obtain ⟨hsec', hnsec'⟩ := lst2st_toNat hsecs
  rw [lscFreq_toNat] at hsec' hnsec'
  refine ⟨BitVec.eq_of_toNat_eq ?_, ?_⟩
  · omega
  · omega

/-! ## Machine time and LMT -/

theorem toNat_mt2lmt {mt : HwTime} (h : mt.toNat * g.d.toNat < 2 ^ 64) :
    (g.mt2lmt mt).toNat = mt.toNat * g.d.toNat := by
  rw [Clocks.mt2lmt, BitVec.toNat_mul, wide_toNat, Nat.mod_eq_of_lt h]

theorem toNat_lmt2mt (lmt : HwTime) : (g.lmt2mt lmt).toNat = lmt.toNat / g.d.toNat :=
  divU64_toNat lmt g.d

theorem lmt2mt_mt2lmt {mt : HwTime} (h : mt.toNat * g.d.toNat < 2 ^ 64) :
    g.lmt2mt (g.mt2lmt mt) = mt := by
  apply BitVec.eq_of_toNat_eq
  rw [toNat_lmt2mt, toNat_mt2lmt h, Nat.mul_div_cancel _ g.d_pos]

/-- The LMT at which the machine cycle of an LMT began. -/
theorem toNat_mt2lmt_lmt2mt (lmt : HwTime) :
    (g.mt2lmt (g.lmt2mt lmt)).toNat = lmt.toNat / g.d.toNat * g.d.toNat := by
  have hle : lmt.toNat / g.d.toNat * g.d.toNat ≤ lmt.toNat := Nat.div_mul_le_self _ _
  have hlt := lmt.isLt
  rw [toNat_mt2lmt, toNat_lmt2mt]
  rw [toNat_lmt2mt]
  omega

/-- What the conversions between the units of a time keep. -/
structure Clocks.UnitsRoundTrip (g : Clocks) : Prop where
  lst : ∀ lst : HwTime, lst.toNat / lscFreq.toNat < 2 ^ 31 → st2lst (lst2st lst) = lst
  st : ∀ st : Timespec, st.Valid → st.Exact ∧ (lst2st (st2lst st)).tvSec = st.tvSec ∧
    (lst2st (st2lst st)).tvNsec.toNat = st.tvNsec.toNat / 8 * 8
  mt : ∀ mt : HwTime, mt.toNat * g.d.toNat < 2 ^ 64 → g.lmt2mt (g.mt2lmt mt) = mt
  lmt : ∀ lmt : HwTime,
    IsGreatest {x | g.d.toNat ∣ x ∧ x ≤ lmt.toNat} (g.mt2lmt (g.lmt2mt lmt)).toNat

/-- **Units.** Each conversion of a time is undone by the one in the other direction, up to a tick
of the coarser unit. -/
theorem units_round_trip (g : Clocks) : g.UnitsRoundTrip where
  lst _ h := st2lst_lst2st h
  st _ h := ⟨h.exact, lst2st_st2lst h⟩
  mt _ h := lmt2mt_mt2lmt h
  lmt lmt := by
    rw [toNat_mt2lmt_lmt2mt]
    refine ⟨⟨Dvd.intro_left _ rfl, Nat.div_mul_le_self _ _⟩, ?_⟩
    rintro x ⟨⟨k, rfl⟩, hx⟩
    rw [mul_comm g.d.toNat k] at hx ⊢
    exact Nat.mul_le_mul_right _ ((Nat.le_div_iff_mul_le g.d_pos).2 hx)

/-! ## LST and LMT -/

/-- A pair of counters that were read together, to convert LST into LMT and LMT into LST. -/
def LTimestamp.sync (t : LTimestamp) : Sync := ⟨t.lst.toNat, t.lmt.toNat⟩

/-- The ticks of LST for each tick of LMT are `10 * LSC_FREQ / flmcdHz`. -/
def lscDeciHz : ℕ := 1250000000

theorem lscDeciHz_pos : 0 < lscDeciHz := by norm_num [lscDeciHz]

/-- The exact LMT of an LST, truncated towards the pair. -/
def Clocks.exactLmt (g : Clocks) (stime : LTimestamp) (lst : HwTime) : ℤ :=
  stime.sync.convert g.flmcdHz.toNat lscDeciHz lst.toNat

/-- The exact LST of an LMT, truncated towards the pair. -/
def Clocks.exactLst (g : Clocks) (stime : LTimestamp) (lmt : HwTime) : ℤ :=
  stime.sync.swap.convert lscDeciHz g.flmcdHz.toNat lmt.toNat

/-- The distance between two readings of a counter. -/
def apart (t t' : HwTime) : ℕ := ((t.toNat : ℤ) - t'.toNat).natAbs

/-- A value of a counter. -/
def InRange (x : ℤ) : Prop := 0 ≤ x ∧ x < 2 ^ 64

theorem toNat_ofInt_of_inRange {x : ℤ} (h : InRange x) : ((BitVec.ofInt 64 x).toNat : ℤ) = x := by
  obtain ⟨hpos, hlt⟩ := h
  rw [BitVec.toNat_ofInt]
  push_cast
  omega

/-- The distance that the conversions compute, by the direction. -/
theorem toNat_delta (t t' : HwTime) : (if t' < t then t - t' else t' - t).toNat = apart t t' := by
  have := t.isLt
  have := t'.isLt
  rw [apart]
  split
  · next h =>
    have hlt : t'.toNat < t.toNat := h
    rw [BitVec.toNat_sub_of_le (BitVec.le_of_lt h)]
    omega
  · next h =>
    have hle : t.toNat ≤ t'.toNat := Nat.le_of_not_lt h
    rw [BitVec.toNat_sub_of_le hle]
    omega

/-- The sum that the conversions form from a rescaled distance, by the direction. -/
theorem anchored (a b : ℕ) (t t' base delta : HwTime) (h : delta.toNat = apart t t' * a / b) :
    (if t' < t then base + delta else base - delta) =
      BitVec.ofInt 64 ((⟨t'.toNat, base.toNat⟩ : Sync).convert a b t.toNat) := by
  have hdelta : delta = BitVec.ofInt 64 (rescale a b (apart t t')) := by
    rw [rescale_natCast, ← h, BitVec.ofInt_natCast, BitVec.ofNat_toNat, BitVec.setWidth_eq]
  have hbase : base = BitVec.ofInt 64 base.toNat := by
    rw [BitVec.ofInt_natCast, BitVec.ofNat_toNat, BitVec.setWidth_eq]
  rw [Sync.convert, BitVec.ofInt_add, ← hbase, hdelta, apart]
  split
  · next hlt =>
    have hlt : t'.toNat < t.toNat := hlt
    rw [Int.natAbs_of_nonneg (by omega)]
  · next hle =>
    have hle : t.toNat ≤ t'.toNat := Nat.le_of_not_lt hle
    rw [Int.ofNat_natAbs_of_nonpos (by omega), rescale_neg, BitVec.ofInt_neg, BitVec.sub_neg]

variable {stime : LTimestamp} {lst lst' lmt lmt' : HwTime}

theorem lst_divisor_toNat : (lscFreq * flmcDeciHz).toNat = lscDeciHz := by decide

theorem toNat_deltaLstOverflow : deltaLstOverflow.toNat = 15707377440 := rfl

theorem toNat_deltaLmtOverflow : deltaLmtOverflow.toNat = 14757395240 := rfl

/-- The product of `lst2lmt`. -/
theorem lst_product_lt (hf : g.flmcdHz.toNat ≤ 1174400000)
    (h : apart lst stime.lst ≤ deltaLstOverflow.toNat) :
    apart lst stime.lst * g.flmcdHz.toNat < 2 ^ 64 := by
  rw [toNat_deltaLstOverflow] at h
  calc apart lst stime.lst * g.flmcdHz.toNat ≤ 15707377440 * 1174400000 := Nat.mul_le_mul h hf
    _ < 2 ^ 64 := by norm_num

/-- The product of `lmt2lst`, whose first part is smaller still. -/
theorem lmt_product_lt (h : apart lmt stime.lmt ≤ deltaLmtOverflow.toNat) :
    apart lmt stime.lmt * lscDeciHz < 2 ^ 64 := by
  rw [toNat_deltaLmtOverflow] at h
  rw [lscDeciHz]
  omega

/-- `lst2lmt` fails beyond `DELTA_LST_OVERFLOW`, and else gives the exact LMT. -/
theorem lst2lmt_eq (hf : g.flmcdHz.toNat ≤ 1174400000) : g.lst2lmt lst stime =
    if deltaLstOverflow.toNat < apart lst stime.lst then none
    else some (BitVec.ofInt 64 (g.exactLmt stime lst)) := by
  rw [Clocks.lst2lmt]
  dsimp only
  have hdelta := toNat_delta lst stime.lst
  by_cases h : deltaLstOverflow.toNat < apart lst stime.lst
  · rw [if_pos h, if_pos]
    rwa [BitVec.lt_def, hdelta]
  · rw [if_neg h, if_neg (by rwa [BitVec.lt_def, hdelta]), Option.some.injEq]
    refine anchored _ _ _ _ _ _ ?_
    rw [divU64_toNat, BitVec.toNat_mul, hdelta, wide_toNat, lst_divisor_toNat,
      Nat.mod_eq_of_lt (lst_product_lt hf (Nat.le_of_not_lt h))]

/-- `lmt2lst` fails beyond `DELTA_LMT_OVERFLOW`, and else gives the exact LST. -/
theorem lmt2lst_eq : g.lmt2lst lmt stime =
    if deltaLmtOverflow.toNat < apart lmt stime.lmt then none
    else some (BitVec.ofInt 64 (g.exactLst stime lmt)) := by
  rw [Clocks.lmt2lst]
  dsimp only
  have hdelta := toNat_delta lmt stime.lmt
  by_cases h : deltaLmtOverflow.toNat < apart lmt stime.lmt
  · rw [if_pos h, if_pos]
    rwa [BitVec.lt_def, hdelta]
  · rw [if_neg h, if_neg (by rwa [BitVec.lt_def, hdelta]), Option.some.injEq]
    refine anchored _ _ _ _ _ _ ?_
    have hproduct := lmt_product_lt (Nat.le_of_not_lt h)
    have hfactors : wide lscFreq * wide flmcDeciHz = BitVec.ofNat 64 lscDeciHz := by decide
    rw [divU64_toNat, mul_assoc, hfactors, BitVec.toNat_mul, hdelta, BitVec.toNat_ofNat,
      Nat.mod_eq_of_lt (show lscDeciHz < 2 ^ 64 by decide), Nat.mod_eq_of_lt hproduct]

theorem lst2lmt_eq_some (hf : g.flmcdHz.toNat ≤ 1174400000) (h : g.lst2lmt lst stime = some lmt) :
    apart lst stime.lst ≤ deltaLstOverflow.toNat ∧
      lmt = BitVec.ofInt 64 (g.exactLmt stime lst) := by
  rw [lst2lmt_eq hf] at h
  split at h
  · cases h
  · next hle => exact ⟨Nat.le_of_not_lt hle, (Option.some.inj h).symm⟩

theorem lmt2lst_eq_some (h : g.lmt2lst lmt stime = some lst) :
    apart lmt stime.lmt ≤ deltaLmtOverflow.toNat ∧
      lst = BitVec.ofInt 64 (g.exactLst stime lmt) := by
  rw [lmt2lst_eq] at h
  split at h
  · cases h
  · next hle => exact ⟨Nat.le_of_not_lt hle, (Option.some.inj h).symm⟩

/-- Two results that did not wrap compare as the exact ones. -/
theorem ofInt_le_ofInt {x y : ℤ} (hx : InRange x) (hy : InRange y) (h : x ≤ y) :
    BitVec.ofInt 64 x ≤ BitVec.ofInt 64 y := by
  rw [BitVec.le_def, ← Int.ofNat_le, toNat_ofInt_of_inRange hx, toNat_ofInt_of_inRange hy]
  exact h

/-- A reading that is converted and back again, when the first result did not wrap. -/
theorem converted_back {s : Sync} {a b : ℕ} (ha : 0 < a) (hb : 0 < b) {t t' : HwTime}
    (hs : s.here = t'.toNat) (hmid : InRange (s.convert a b t.toNat)) :
    apart t (BitVec.ofInt 64 (s.swap.convert b a
        (BitVec.ofInt 64 (s.convert a b t.toNat)).toNat)) * a < a + b ∧
      apart (BitVec.ofInt 64 (s.swap.convert b a
        (BitVec.ofInt 64 (s.convert a b t.toNat)).toNat)) t' ≤ apart t t' := by
  rw [toNat_ofInt_of_inRange hmid]
  have hmem : s.swap.convert b a (s.convert a b t.toNat) ∈ Set.uIcc s.here t.toNat :=
    Sync.convert_back_mem
  have hloss : |(t.toNat : ℤ) - s.swap.convert b a (s.convert a b t.toNat)| * a < a + b :=
    Sync.convert_back_lt ha hb
  rw [Set.mem_uIcc, hs] at hmem
  have ht := t.isLt
  have ht' := t'.isLt
  have hin : InRange (s.swap.convert b a (s.convert a b t.toNat)) := by
    unfold InRange
    omega
  rw [apart, apart, apart, toNat_ofInt_of_inRange hin]
  constructor
  · zify
    exact hloss
  · omega

/-- LST to LMT and back. -/
theorem lst_back (hpos : 0 < g.flmcdHz.toNat) (hin : InRange (g.exactLmt stime lst)) :
    apart lst (BitVec.ofInt 64 (g.exactLst stime (BitVec.ofInt 64 (g.exactLmt stime lst)))) *
        g.flmcdHz.toNat < g.flmcdHz.toNat + lscDeciHz ∧
      apart (BitVec.ofInt 64 (g.exactLst stime (BitVec.ofInt 64 (g.exactLmt stime lst))))
        stime.lst ≤ apart lst stime.lst := by
  unfold Clocks.exactLmt at hin
  unfold Clocks.exactLst Clocks.exactLmt
  exact converted_back (s := stime.sync) hpos lscDeciHz_pos rfl hin

/-- LMT to LST and back. -/
theorem lmt_back (hpos : 0 < g.flmcdHz.toNat) (hin : InRange (g.exactLst stime lmt)) :
    apart lmt (BitVec.ofInt 64 (g.exactLmt stime (BitVec.ofInt 64 (g.exactLst stime lmt)))) *
        lscDeciHz < lscDeciHz + g.flmcdHz.toNat ∧
      apart (BitVec.ofInt 64 (g.exactLmt stime (BitVec.ofInt 64 (g.exactLst stime lmt))))
        stime.lmt ≤ apart lmt stime.lmt := by
  unfold Clocks.exactLst at hin
  unfold Clocks.exactLst Clocks.exactLmt
  exact converted_back (s := stime.sync.swap) lscDeciHz_pos hpos rfl hin

/-- What the conversions between LST and LMT compute, from a pair of both. A result is right only
modulo `2 ^ 64`; where the exact one is in range, it is this one. -/
structure Clocks.ConversionsExact (g : Clocks) (stime : LTimestamp) : Prop where
  lst_fails : ∀ lst, g.lst2lmt lst stime = none ↔ deltaLstOverflow.toNat < apart lst stime.lst
  lmt_fails : ∀ lmt, g.lmt2lst lmt stime = none ↔ deltaLmtOverflow.toNat < apart lmt stime.lmt
  lst_product : ∀ lst, g.lst2lmt lst stime ≠ none →
    apart lst stime.lst * g.flmcdHz.toNat < 2 ^ 64
  lmt_product : ∀ lmt, g.lmt2lst lmt stime ≠ none →
    apart lmt stime.lmt * lscFreq.toNat < 2 ^ 64 ∧
      apart lmt stime.lmt * lscFreq.toNat * flmcDeciHz.toNat < 2 ^ 64
  lst_value : ∀ lst lmt, g.lst2lmt lst stime = some lmt →
    lmt = BitVec.ofInt 64 (g.exactLmt stime lst)
  lmt_value : ∀ lmt lst, g.lmt2lst lmt stime = some lst →
    lst = BitVec.ofInt 64 (g.exactLst stime lmt)
  lst_mono : ∀ lst lst' lmt lmt', g.lst2lmt lst stime = some lmt →
    g.lst2lmt lst' stime = some lmt' → InRange (g.exactLmt stime lst) →
    InRange (g.exactLmt stime lst') → lst ≤ lst' → lmt ≤ lmt'
  lmt_mono : ∀ lmt lmt' lst lst', g.lmt2lst lmt stime = some lst →
    g.lmt2lst lmt' stime = some lst' → InRange (g.exactLst stime lmt) →
    InRange (g.exactLst stime lmt') → lmt ≤ lmt' → lst ≤ lst'
  lst_back : ∀ lst lmt back, g.lst2lmt lst stime = some lmt → InRange (g.exactLmt stime lst) →
    g.lmt2lst lmt stime = some back →
      apart lst back * g.flmcdHz.toNat < g.flmcdHz.toNat + lscDeciHz ∧
        apart back stime.lst ≤ apart lst stime.lst
  lmt_back : ∀ lmt lst back, g.lmt2lst lmt stime = some lst → InRange (g.exactLst stime lmt) →
    g.lst2lmt lst stime = some back →
      apart lmt back * lscDeciHz < lscDeciHz + g.flmcdHz.toNat ∧
        apart back stime.lmt ≤ apart lmt stime.lmt

/-- **LST and LMT.** For every clock rate up to that of the fastest machine and every pair, the
conversions fail beyond their distances alone, and compute the exact value, with no overflow on the
way. -/
theorem conversions_exact (g : Clocks) (stime : LTimestamp) (hpos : 0 < g.flmcdHz.toNat)
    (hf : g.flmcdHz.toNat ≤ 1174400000) : g.ConversionsExact stime where
  lst_fails lst := by
    rw [lst2lmt_eq hf, ite_eq_left_iff]
    exact ⟨fun h => by_contra fun hn => Option.some_ne_none _ (h hn), absurd⟩
  lmt_fails lmt := by
    rw [lmt2lst_eq, ite_eq_left_iff]
    exact ⟨fun h => by_contra fun hn => Option.some_ne_none _ (h hn), absurd⟩
  lst_product lst h := by
    obtain ⟨lmt, hlmt⟩ := Option.ne_none_iff_exists'.1 h
    exact lst_product_lt hf (lst2lmt_eq_some hf hlmt).1
  lmt_product lmt h := by
    obtain ⟨lst, hlst⟩ := Option.ne_none_iff_exists'.1 h
    have hproduct := lmt_product_lt (lmt2lst_eq_some hlst).1
    rw [lscDeciHz] at hproduct
    rw [lscFreq_toNat, show flmcDeciHz.toNat = 10 from rfl]
    omega
  lst_value lst lmt h := (lst2lmt_eq_some hf h).2
  lmt_value lmt lst h := (lmt2lst_eq_some h).2
  lst_mono lst lst' lmt lmt' h h' hin hin' hle := by
    rw [(lst2lmt_eq_some hf h).2, (lst2lmt_eq_some hf h').2]
    exact ofInt_le_ofInt hin hin' (Sync.convert_mono lscDeciHz_pos (Int.ofNat_le.2 hle))
  lmt_mono lmt lmt' lst lst' h h' hin hin' hle := by
    rw [(lmt2lst_eq_some h).2, (lmt2lst_eq_some h').2]
    exact ofInt_le_ofInt hin hin' (Sync.convert_mono hpos (Int.ofNat_le.2 hle))
  lst_back lst lmt back h hin h' := by
    obtain ⟨-, rfl⟩ := lst2lmt_eq_some hf h
    obtain ⟨-, rfl⟩ := lmt2lst_eq_some h'
    exact lst_back hpos hin
  lmt_back lmt lst back h hin h' := by
    obtain ⟨-, rfl⟩ := lmt2lst_eq_some h
    obtain ⟨-, rfl⟩ := lst2lmt_eq_some hf h'
    exact lmt_back hpos hin

/-- The clocks of the fastest machine, of which LMT steps at 117.44 MHz. -/
def fastClocks : Clocks := ⟨220, by decide, 1174400000, 0, 0x8000000⟩

/-- The conversions on the fastest machine, and one over the longest distance. -/
theorem conversions_exact_fast : fastClocks.ConversionsExact ⟨1000, 2000⟩ ∧
    fastClocks.lst2lmt 15707378440 ⟨1000, 2000⟩ = some 14757397252 :=
  ⟨conversions_exact fastClocks _ (by decide) (by decide), by decide⟩

end LiberaDaq.Dd
