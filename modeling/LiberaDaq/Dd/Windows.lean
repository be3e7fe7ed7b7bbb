import LiberaDaq.Dd.Conversions
import LiberaDaq.Dd.Device

/-!
# The windows of the requests in ST and in MT

A request is refused when its start is too old, and waits until its start is past by a margin. Both
limits are counted in ticks of LMT. `wait_lst`, which is `wait_lmt` with the other clock, applies
the same numbers to a distance in LST, of which a machine slower than LSC has more: it returns while
the start, converted by `lst2lmt`, is not yet past by the margin that a request in MT waits for
(`windows_agree_iff`).
-/

namespace LiberaDaq.Dd

open LiberaDaq.Cspi LiberaDaq.Interaction

variable {g : Clocks} {clock : Clock} {ctime now : LTimestamp} {start lmt : HwTime} {turns : ℕ}

/-! ## What the waits return -/

theorem ensures_sleepUntil {delta : HwTime} : (sleepUntil g clock start delta turns).Ensures
    fun r => r.1 = 0 → 0 ≤ (g.deltaEnd (clock.read r.2) start).toInt := by
  induction turns generalizing delta with
  | zero => exact ⟨trivial, fun e => Empty.elim e⟩
  | succ turns ih =>
    refine ⟨trivial, fun _ => ⟨trivial, fun x => ?_⟩⟩
    cases x with
    | error e => cases e <;> exact fun h => absurd h (by decide)
    | ok ctime =>
      change (if (g.deltaEnd (clock.read ctime) start).toInt < 0 then _ else _ : DdProg _).Ensures _
      split
      · exact ih
      · next h => exact fun _ => Int.not_lt.1 h

/-- A wait that succeeds leaves a time that is past the margin. One that does not sleep leaves the
time that it got. -/
theorem ensures_waitClock : (waitClock g clock ctime start turns).Ensures fun r => r.1 = 0 →
    0 ≤ (g.deltaEnd (clock.read r.2) start).toInt := by
  unfold waitClock
  split
  · exact fun h => absurd h (show -Kernel.eNoData ≠ 0 by decide)
  · dsimp only
    split
    · split
      · exact fun h => absurd h (show -Kernel.eAgain ≠ 0 by decide)
      · exact ensures_sleepUntil
    · next h => exact fun _ => Int.not_lt.1 h

/-! ## The start in LMT -/

/-- `LIBERA_DD_READSYNC_MARGIN * lgbl.d`. -/
def Clocks.margin (g : Clocks) : Word := ddReadsyncMargin * g.d

/-- The distance from a start in LST, times the clock rate, as `lst2lmt` multiplies it. -/
def Clocks.scaled (g : Clocks) (now start : HwTime) : ℕ :=
  ((now - start) * wide g.flmcdHz).toNat

/-- The limits of `wait_lmt`: the start is not too old when the request is made, and past the
margin when it is served. -/
structure Clocks.LmtWindow (g : Clocks) (ctime now : LTimestamp) (lmt : HwTime) : Prop where
  initial : (ctime.lmt - lmt).toInt ≤ g.latest.toNat
  final : 0 ≤ (g.deltaEnd now.lmt lmt).toInt

/-- A start that is past the margin in LST, and not too far to be converted, lies before the
current time. -/
theorem before_of_past (h : 0 ≤ (g.deltaEnd now.lst start).toInt)
    (hnear : apart start now.lst ≤ deltaLstOverflow.toNat) :
    start.toNat ≤ now.lst.toNat ∧ g.margin.toNat ≤ (now.lst - start).toNat := by
  have hsub := BitVec.toNat_sub (n := 64) now.lst start
  have hdelta : (g.deltaEnd now.lst start).toNat =
      (2 ^ 64 - g.margin.toNat + (now.lst - start).toNat) % 2 ^ 64 := by
    rw [Clocks.deltaEnd, BitVec.toNat_sub, wide_toNat]
    rfl
  have hnow := now.lst.isLt
  have hstart := start.isLt
  have hmargin := g.margin.isLt
  rw [apart, toNat_deltaLstOverflow] at hnear
  rw [BitVec.toInt_eq_toNat_cond] at h
  split at h <;> omega

/-- The distance in LMT of a start that was converted. -/
def Clocks.age (g : Clocks) (now : LTimestamp) (start : HwTime) : HwTime :=
  divU64 ((now.lst - start) * wide g.flmcdHz) (lscFreq * flmcDeciHz)

theorem toNat_age : (g.age now start).toNat = g.scaled now.lst start / lscDeciHz := by
  rw [Clocks.age, divU64_toNat, lst_divisor_toNat, Clocks.scaled]

/-- The start that `lst2lmt` gives for a start in the past. -/
theorem lst2lmt_past (hnear : apart start now.lst ≤ deltaLstOverflow.toNat)
    (h : start.toNat ≤ now.lst.toNat) :
    g.lst2lmt start now = some (now.lmt - g.age now start) := by
  have hnot : ¬now.lst < start := Nat.not_lt.2 h
  have hdelta := toNat_delta start now.lst
  rw [if_neg hnot] at hdelta
  rw [Clocks.lst2lmt]
  dsimp only
  rw [if_neg hnot, if_neg (by rw [BitVec.lt_def, hdelta]; omega), if_neg hnot]
  rfl

theorem lst2lmt_far (h : deltaLstOverflow.toNat < apart start now.lst) :
    g.lst2lmt start now = none := by
  rw [Clocks.lst2lmt]
  dsimp only
  rw [if_pos]
  rwa [BitVec.lt_def, toNat_delta]

/-! ## The two windows -/

/-- The start is in the window of `wait_lmt` by the rate of the machine clock: past the margin in
its ticks, and not too old at the first current time. -/
structure Clocks.KeepsWindow (g : Clocks) (ctime now : LTimestamp) (start : HwTime) : Prop where
  margin : g.margin.toNat * lscDeciHz ≤ g.scaled now.lst start
  latest : (ctime.lmt - now.lmt + BitVec.ofNat 64 (g.scaled now.lst start / lscDeciHz)).toInt ≤
    g.latest.toNat

theorem age_eq : g.age now start = BitVec.ofNat 64 (g.scaled now.lst start / lscDeciHz) := by
  rw [← toNat_age, BitVec.ofNat_toNat, BitVec.setWidth_eq]

theorem scaled_lt : g.scaled now.lst start < 2 ^ 64 := BitVec.isLt _

/-- The limits of `wait_lmt` for a start in the past that was converted. -/
theorem lmtWindow_iff : g.LmtWindow ctime now (now.lmt - g.age now start) ↔
    g.KeepsWindow ctime now start := by
  have hfinal : 0 ≤ (g.deltaEnd now.lmt (now.lmt - g.age now start)).toInt ↔
      g.margin.toNat * lscDeciHz ≤ g.scaled now.lst start := by
    have hdelta : g.deltaEnd now.lmt (now.lmt - g.age now start) =
        g.age now start - wide g.margin := by
      rw [Clocks.deltaEnd, sub_sub_cancel]
      rfl
    have hage : (g.age now start).toNat < 2 ^ 64 / lscDeciHz + 1 := by
      rw [toNat_age]
      exact Nat.lt_succ_of_le (Nat.div_le_div_right scaled_lt.le)
    have hmargin := g.margin.isLt
    rw [← Nat.le_div_iff_mul_le lscDeciHz_pos, ← toNat_age, hdelta, BitVec.toInt_eq_toNat_cond,
      BitVec.toNat_sub, wide_toNat]
    rw [lscDeciHz] at hage
    split <;> omega
  have hinitial : (ctime.lmt - (now.lmt - g.age now start)).toInt ≤ g.latest.toNat ↔
      (ctime.lmt - now.lmt + BitVec.ofNat 64 (g.scaled now.lst start / lscDeciHz)).toInt ≤
        g.latest.toNat := by
    rw [← age_eq, sub_sub_eq_add_sub, add_sub_right_comm]
  exact ⟨fun h => ⟨hfinal.1 h.final, hinitial.1 h.initial⟩,
    fun h => ⟨hinitial.2 h.latest, hfinal.2 h.margin⟩⟩

/-- **The two windows.** When `wait_lst` accepts a start, the start that `lst2lmt` makes of it is in
the window of `wait_lmt` if and only if it is by the rate of the machine clock; a start that is too
far to be converted is refused. -/
theorem windows_agree_iff (g : Clocks) (ctime now : LTimestamp) (start : HwTime) (turns : ℕ)
    (tr : List DdEvent) (h : (waitClock g .lst ctime start turns).Runs tr (0, now)) :
    (∀ lmt, g.lst2lmt start now = some lmt → g.LmtWindow ctime now lmt) ↔
      (apart start now.lst ≤ deltaLstOverflow.toNat → g.KeepsWindow ctime now start) := by
  have hpast : 0 ≤ (g.deltaEnd now.lst start).toInt := h.of_ensures ensures_waitClock rfl
  by_cases hnear : apart start now.lst ≤ deltaLstOverflow.toNat
  · have hbefore := (before_of_past hpast hnear).1
    rw [lst2lmt_past hnear hbefore]
    constructor
    · intro hall _
      exact lmtWindow_iff.1 (hall _ rfl)
    · rintro hkeeps _ ⟨⟩
      exact lmtWindow_iff.2 (hkeeps hnear)
  · rw [lst2lmt_far (Nat.lt_of_not_le hnear)]
    exact iff_of_true (by rintro _ ⟨⟩) fun hle => absurd hle hnear

/-- A wait without calls returns the time that it got, for a start that is not too old. -/
theorem waitClock_awake (h : (waitClock g clock ctime start turns).Runs [] (0, now)) :
    now = ctime ∧ (clock.read ctime - start).toInt ≤ g.latest.toNat := by
  unfold waitClock at h
  split at h
  · exact absurd (Prod.mk.inj h.2).1 (show -Kernel.eNoData ≠ 0 by decide)
  · next hlatest =>
    dsimp only at h
    split at h
    · split at h
      · exact absurd (Prod.mk.inj h.2).1 (show -Kernel.eAgain ≠ 0 by decide)
      · cases turns with
        | zero => exact h.elim fun e _ => Empty.elim e
        | succ turns =>
          obtain ⟨_, _, hnil, -⟩ := h
          exact absurd hnil.symm (List.cons_ne_nil _ _)
    · exact ⟨(Prod.mk.inj h.2).2.symm, Int.not_lt.1 hlatest⟩

/-- Where the wait does not sleep, and LMT is not faster than LSC, the margin alone makes the
difference. -/
theorem keepsWindow_awake (h : (waitClock g .lst ctime start turns).Runs [] (0, now))
    (hnear : apart start now.lst ≤ deltaLstOverflow.toNat) (hf : g.flmcdHz.toNat ≤ lscDeciHz) :
    g.KeepsWindow ctime now start ↔ g.margin.toNat * lscDeciHz ≤ g.scaled now.lst start := by
  refine ⟨fun hkeeps => hkeeps.margin, fun hmargin => ⟨hmargin, ?_⟩⟩
  have hpast : 0 ≤ (g.deltaEnd now.lst start).toInt := h.of_ensures ensures_waitClock rfl
  have hbefore := (before_of_past hpast hnear).1
  obtain ⟨rfl, hlatest⟩ := waitClock_awake h
  have hdistance : ((now.lst - start).toNat : ℤ) ≤ g.latest.toNat := by
    have hsub := BitVec.toNat_sub_of_le (BitVec.le_def.2 hbefore)
    have hsmall : 2 * (now.lst - start).toNat < 2 ^ 64 := by
      rw [apart, toNat_deltaLstOverflow] at hnear
      omega
    rw [← BitVec.toInt_eq_toNat_of_lt hsmall]
    exact hlatest
  have hscaled : g.scaled now.lst start / lscDeciHz ≤ (now.lst - start).toNat := by
    refine Nat.div_le_of_le_mul ?_
    rw [Clocks.scaled, BitVec.toNat_mul, wide_toNat, mul_comm lscDeciHz]
    exact (Nat.mod_le _ _).trans (Nat.mul_le_mul_left _ hf)
  have hlt := g.latest.isLt
  generalize g.scaled now.lst start / lscDeciHz = converted at hscaled ⊢
  rw [sub_self, zero_add, BitVec.toInt_eq_toNat_of_lt, BitVec.toNat_ofNat]
  · omega
  · rw [BitVec.toNat_ofNat]
    omega

/-! ## Examples -/

/-- The current time in both examples. -/
def noonSync : LTimestamp := ⟨1000000, 1000000⟩

theorem awake_runs (g : Clocks) (start : HwTime)
    (hlatest : ¬(g.latest.toNat : ℤ) < (Clock.lst.read noonSync - start).toInt)
    (hpast : ¬(g.deltaEnd (Clock.lst.read noonSync) start).toInt < 0) :
    (waitClock g .lst noonSync start 0).Runs [] (0, noonSync) := by
  rw [waitClock, if_neg hlatest]
  dsimp only
  rw [if_neg hpast]
  exact ⟨rfl, rfl⟩

/-- A start that is past by 64 machine cycles of ticks of LST is past by fewer ticks of LMT. -/
theorem early_start : ¬∀ (g : Clocks) (ctime now : LTimestamp) (start : HwTime) (turns : ℕ)
    (tr : List DdEvent), (waitClock g .lst ctime start turns).Runs tr (0, now) →
      ∀ lmt, g.lst2lmt start now = some lmt → g.LmtWindow ctime now lmt := by
  intro h
  have hruns : (waitClock fastClocks .lst noonSync 985920 0).Runs [] (0, noonSync) :=
    awake_runs fastClocks 985920 (by decide +kernel) (by decide +kernel)
  have hlmt : fastClocks.lst2lmt 985920 noonSync = some 986772 := by decide +kernel
  have hwindow := h fastClocks noonSync noonSync 985920 0 [] hruns 986772 hlmt
  exact absurd hwindow.final (by decide +kernel)

/-- A start that is past by 100 machine cycles. -/
theorem windows_agree_past :
    (∀ lmt, fastClocks.lst2lmt 978000 noonSync = some lmt →
      fastClocks.LmtWindow noonSync noonSync lmt) ↔
      (apart 978000 noonSync.lst ≤ deltaLstOverflow.toNat →
        fastClocks.KeepsWindow noonSync noonSync 978000) :=
  windows_agree_iff fastClocks noonSync noonSync 978000 0 []
    (awake_runs fastClocks 978000 (by decide +kernel) (by decide +kernel))

end LiberaDaq.Dd
