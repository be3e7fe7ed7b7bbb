import LiberaDaq.Dd.Times

/-!
# The event generator

An event at a time of the machine clock, as the start of the SA data that `libera_set_LMT` installs,
is given to the event generator of the FPGA, which takes an offset into a period of its 26-bit
counter. Two handlers watch the time of the event. `libera_mc_selfinc_specific`, at the start of a
period, serves the second half of it, and `libera_mchelp_handler_specific`, before the end of a
period, serves the first half of the next one.

The steps of the two in turn serve one half after the other, so that each time is served once. Only
the end of a period is compared after it has been computed in 64 bits, and no time is found in the
period in which these overflow (`generated_once_iff`).
-/

namespace LiberaDaq.Kernel

open LiberaDaq.Cspi
open LiberaDaq.Dd (HwTime)

/-! ## The handlers -/

/-- The head of `event->list`. -/
structure EventItem where
  event : Word
  time : HwTime
  deriving DecidableEq, Repr

/-- The members of `libera_event_device` that the handlers use. -/
structure EventGen where
  mcTime : HwTime
  head : EventItem
  deriving DecidableEq, Repr

/-- What is written to `T_MC_EVENTGENL` and `T_MC_EVENTGENH`. -/
structure Generated where
  event : Word
  offset : Word
  deriving DecidableEq, Repr

/-- `libera_mc_selfinc_specific`. -/
def EventGen.mcSelfincSpecific (s : EventGen) : Option Generated :=
  if s.mcTime ≤ s.head.time ∧ s.mcTime + 0x4000000 > s.head.time then
    let offset26 := s.head.time - s.mcTime
    if 0x2000000 ≤ offset26 then some ⟨s.head.event, (offset26 &&& 0xFFFFFFFF).setWidth 32⟩
    else none
  else none

/-- `libera_mchelp_handler_specific`. -/
def EventGen.mchelpHandlerSpecific (s : EventGen) : Option Generated :=
  if s.mcTime + 0x4000000 ≤ s.head.time ∧ s.mcTime + 0x8000000 > s.head.time then
    let offset26 := s.head.time - (s.mcTime + 0x4000000)
    if offset26 < 0x2000000 then some ⟨s.head.event, (offset26 &&& 0xFFFFFFFF).setWidth 32⟩
    else none
  else none

/-- The interrupts that matter here: SELF_INC of MC, and the helper of MC. -/
inductive McStep
  | selfInc | helper
  deriving DecidableEq, Repr

/-- What SELF_INC of MC does first. -/
def EventGen.advance (s : EventGen) : EventGen := { s with mcTime := s.mcTime + 0x4000000 }

/-- An interrupt, with what it gives to the event generator. -/
def EventGen.step (s : EventGen) : McStep → EventGen × Option Generated
  | .selfInc => (s.advance, s.advance.mcSelfincSpecific)
  | .helper => (s, s.mchelpHandlerSpecific)

theorem advance_mcTime (s : EventGen) : s.advance.mcTime = s.mcTime + 0x4000000 := rfl

-- not by `rfl`, which would compare the counters of the two states
@[simp] theorem advance_head (s : EventGen) : s.advance.head = s.head := by
  rw [EventGen.advance]

/-! ## Runs -/

/-- `2 ^ 26`, the length of a counter period, and half of it. -/
def counterPeriod : ℕ := 0x4000000

def halfPeriod : ℕ := 0x2000000

/-- The start of the counter period in which an event of a step fires, which is the period after
that of the state before the step. -/
def EventGen.firing (s : EventGen) : HwTime := s.advance.mcTime

/-- The events that a run gives to the generator, with the periods in which they fire. -/
def generated : EventGen → List McStep → List (HwTime × Generated)
  | _, [] => []
  | s, m :: ms => ((s.step m).2.map fun w => (s.firing, w)).toList ++ generated (s.step m).1 ms

/-- The other of the two interrupts. -/
def McStep.other : McStep → McStep
  | .selfInc => .helper
  | .helper => .selfInc

/-- A number of interrupts in turn. -/
def inTurn : McStep → ℕ → List McStep
  | _, 0 => []
  | m, n + 1 => m :: inTurn m.other n

/-- One event is given to the generator in the run, with the offset of its time in the period in
which it fires. -/
def GeneratedOnce (s : EventGen) (ms : List McStep) : Prop :=
  ∃ start offset, generated s ms = [(start, ⟨s.head.event, offset⟩)] ∧
    s.head.time.toNat = start.toNat + offset.toNat ∧ offset.toNat < counterPeriod

/-! ## One step -/

variable {s : EventGen} {m : McStep} {n : ℕ}

/-- From the state before a step, the distance from the half period that it serves to the event. -/
def EventGen.ahead (s : EventGen) : McStep → HwTime
  | .selfInc => s.head.time - s.firing - 0x2000000
  | .helper => s.head.time - s.firing

/-- The half periods from the one that a step serves to that of the event. -/
def EventGen.halvesAhead (s : EventGen) (m : McStep) : ℕ := (s.ahead m).toNat / halfPeriod

/-- The distance of the event from the start of its period. -/
def EventGen.offset (s : EventGen) : ℕ := (s.head.time - s.mcTime).toNat % counterPeriod

/-- The start of the counter period that holds the event. -/
def EventGen.periodStart (s : EventGen) : HwTime := s.head.time - BitVec.ofNat 64 s.offset

/-- The period that holds the event ends below `2 ^ 64`. -/
def EventGen.PeriodEnds (s : EventGen) : Prop := s.periodStart.toNat + counterPeriod < 2 ^ 64

instance (s : EventGen) : Decidable s.PeriodEnds :=
  inferInstanceAs (Decidable (s.periodStart.toNat + counterPeriod < 2 ^ 64))

/-- The test of the handlers for a time in a period. The end of a period that is computed to be
before its start leaves no time in it. -/
theorem holds_iff {start time : HwTime} : start ≤ time ∧ start + 0x4000000 > time ↔
    start.toNat + counterPeriod < 2 ^ 64 ∧ (time - start).toNat < counterPeriod := by
  have hsum : (start + 0x4000000).toNat = (start.toNat + 0x4000000) % 2 ^ 64 :=
    BitVec.toNat_add start 0x4000000
  have hsub := BitVec.toNat_sub time start
  have hstart := start.isLt
  have htime := time.isLt
  rw [gt_iff_lt, BitVec.le_def, BitVec.lt_def, hsum, hsub, counterPeriod]
  omega

/-- What is left of a distance after its mask. -/
theorem offset26_eq (x : HwTime) :
    (x &&& 0xFFFFFFFF).setWidth 32 = BitVec.ofNat 32 x.toNat := by
  have hmask : (x &&& 0xFFFFFFFF).toNat = x.toNat % 2 ^ 32 := by
    rw [BitVec.toNat_and]
    exact Nat.and_two_pow_sub_one_eq_mod _ 32
  apply BitVec.eq_of_toNat_eq
  rw [BitVec.toNat_setWidth, hmask, BitVec.toNat_ofNat, Nat.mod_mod]

/-- A step serves its half of the period. -/
theorem halvesAhead_eq_zero : s.halvesAhead m = 0 ↔
    (s.head.time - s.firing).toNat < counterPeriod ∧
      (m = .selfInc ↔ halfPeriod ≤ (s.head.time - s.firing).toNat) := by
  rw [EventGen.halvesAhead, Nat.div_eq_zero_iff_lt (by decide)]
  cases m with
  | helper =>
    simp only [EventGen.ahead, halfPeriod, counterPeriod, reduceCtorEq, false_iff]
    omega
  | selfInc =>
    have hsub := BitVec.toNat_sub (s.head.time - s.firing) (0x2000000 : HwTime)
    have hlt := (s.head.time - s.firing).isLt
    have hhalf : (0x2000000 : HwTime).toNat = 0x2000000 := rfl
    simp only [EventGen.ahead, halfPeriod, counterPeriod, true_iff]
    omega

theorem offset_eq (h : (s.head.time - s.firing).toNat < counterPeriod) :
    s.offset = (s.head.time - s.firing).toNat := by
  have hfiring : s.head.time - s.firing = s.head.time - s.mcTime - 0x4000000 := by
    rw [EventGen.firing, EventGen.advance, sub_add_eq_sub_sub]
  have hsub := BitVec.toNat_sub (s.head.time - s.mcTime) (0x4000000 : HwTime)
  have hlt := (s.head.time - s.mcTime).isLt
  have hperiod : (0x4000000 : HwTime).toNat = 0x4000000 := rfl
  rw [hfiring] at h ⊢
  simp only [EventGen.offset, counterPeriod] at h ⊢
  omega

theorem periodStart_eq (h : (s.head.time - s.firing).toNat < counterPeriod) :
    s.periodStart = s.firing := by
  rw [EventGen.periodStart, offset_eq h, BitVec.ofNat_toNat, BitVec.setWidth_eq, sub_sub_cancel]

/-- What both handlers write. -/
def EventGen.write (s : EventGen) : Generated :=
  ⟨s.head.event, (s.head.time - s.firing &&& 0xFFFFFFFF).setWidth 32⟩

theorem write_eq (h : (s.head.time - s.firing).toNat < counterPeriod) :
    s.write = ⟨s.head.event, BitVec.ofNat 32 s.offset⟩ := by
  rw [EventGen.write, offset26_eq, offset_eq h]

/-- The event is found in the period that a step looks at. -/
def EventGen.Found (s : EventGen) : Prop :=
  s.firing ≤ s.head.time ∧ s.firing + 0x4000000 > s.head.time

theorem step_selfInc : (s.step .selfInc).2 = if s.firing ≤ s.head.time ∧
    s.firing + 0x4000000 > s.head.time then
      if 0x2000000 ≤ s.head.time - s.firing then some s.write else none
    else none := by
  rw [EventGen.step, EventGen.mcSelfincSpecific, EventGen.write, EventGen.firing, advance_head]

theorem step_helper : (s.step .helper).2 = if s.firing ≤ s.head.time ∧
    s.firing + 0x4000000 > s.head.time then
      if s.head.time - s.firing < 0x2000000 then some s.write else none
    else none := by
  have hend : s.mcTime + 0x8000000 = s.mcTime + 0x4000000 + 0x4000000 := by
    rw [add_assoc]
    rfl
  rw [EventGen.step, EventGen.mchelpHandlerSpecific, EventGen.write, EventGen.firing,
    advance_mcTime, hend]

/-- **A step** gives the event to the generator if and only if the event is in the half period that
it serves, and the period ends below `2 ^ 64`. -/
theorem step_generates : (s.step m).2 =
    if s.halvesAhead m = 0 ∧ s.PeriodEnds then
      some ⟨s.head.event, BitVec.ofNat 32 s.offset⟩ else none := by
  have hnone (hholds : ¬(s.firing ≤ s.head.time ∧ s.firing + 0x4000000 > s.head.time)) :
      (s.step m).2 = none := by
    cases m with
    | selfInc => rw [step_selfInc, if_neg hholds]
    | helper => rw [step_helper, if_neg hholds]
  by_cases hperiod : (s.head.time - s.firing).toNat < counterPeriod
  · have hends : s.PeriodEnds ↔ s.firing.toNat + counterPeriod < 2 ^ 64 := by
      rw [EventGen.PeriodEnds, periodStart_eq hperiod]
    rw [← write_eq hperiod]
    by_cases hend : s.firing.toNat + counterPeriod < 2 ^ 64
    · have hholds := holds_iff.2 ⟨hend, hperiod⟩
      cases m with
      | selfInc =>
        rw [step_selfInc, if_pos hholds]
        refine if_congr ?_ rfl rfl
        rw [and_iff_left (hends.2 hend), halvesAhead_eq_zero, BitVec.le_def]
        exact ⟨fun h => ⟨hperiod, iff_of_true rfl h⟩, fun h => h.2.1 rfl⟩
      | helper =>
        rw [step_helper, if_pos hholds]
        refine if_congr ?_ rfl rfl
        rw [and_iff_left (hends.2 hend), halvesAhead_eq_zero, BitVec.lt_def]
        exact ⟨fun h => ⟨hperiod, iff_of_false (by decide) (Nat.not_le.2 h)⟩,
          fun h => Nat.not_le.1 fun hle => absurd (h.2.2 hle) (by decide)⟩
    · rw [if_neg fun h => hend (hends.1 h.2)]
      exact hnone fun h => hend (holds_iff.1 h).1
  · rw [if_neg fun h => hperiod (halvesAhead_eq_zero.1 h.1).1]
    exact hnone fun h => hperiod (holds_iff.1 h).2

/-! ## All steps -/

/-- What is ahead of the next step is one half period less. -/
theorem ahead_step : (s.step m).1.ahead m.other = s.ahead m - 0x2000000 := by
  cases m with
  | selfInc =>
    change s.advance.head.time - s.advance.firing = s.head.time - s.firing - 0x2000000 - 0x2000000
    have htwice : (0x4000000 : HwTime) = 0x2000000 + 0x2000000 := rfl
    rw [advance_head, EventGen.firing, EventGen.firing, advance_mcTime s.advance, htwice,
      ← add_assoc, sub_add_eq_sub_sub, sub_add_eq_sub_sub]
  | helper => rfl

/-- The offset of the event in its period stays the same, and the period with it. -/
theorem offset_step : (s.step m).1.offset = s.offset := by
  cases m with
  | selfInc =>
    change s.advance.offset = s.offset
    have hsub := BitVec.toNat_sub (s.head.time - s.mcTime) (0x4000000 : HwTime)
    have hlt := (s.head.time - s.mcTime).isLt
    have hperiod : (0x4000000 : HwTime).toNat = 0x4000000 := rfl
    rw [EventGen.offset, EventGen.offset, advance_head, advance_mcTime, ← sub_sub, counterPeriod]
    omega
  | helper => rfl

theorem head_step : (s.step m).1.head = s.head := by
  cases m with
  | selfInc => exact advance_head s
  | helper => rfl

theorem periodStart_step : (s.step m).1.periodStart = s.periodStart := by
  rw [EventGen.periodStart, EventGen.periodStart, offset_step, head_step]

/-- Each step serves the half period after that of the step before. The half period of the event
comes again after one lap of the time. -/
theorem halvesAhead_step : (s.step m).1.halvesAhead m.other =
    if s.halvesAhead m = 0 then 2 ^ 39 - 1 else s.halvesAhead m - 1 := by
  have hsub := BitVec.toNat_sub (s.ahead m) (0x2000000 : HwTime)
  have hlt := (s.ahead m).isLt
  have hhalf : (0x2000000 : HwTime).toNat = 0x2000000 := rfl
  by_cases hzero : s.halvesAhead m = 0
  · rw [if_pos hzero, EventGen.halvesAhead, ahead_step]
    simp only [EventGen.halvesAhead, halfPeriod] at hzero ⊢
    omega
  · rw [if_neg hzero, EventGen.halvesAhead, ahead_step]
    simp only [EventGen.halvesAhead, halfPeriod] at hzero ⊢
    omega

theorem generated_cons : generated s (m :: inTurn m.other n) =
    (if s.halvesAhead m = 0 ∧ s.PeriodEnds then
      [(s.periodStart, ⟨s.head.event, BitVec.ofNat 32 s.offset⟩)] else []) ++
        generated (s.step m).1 (inTurn m.other n) := by
  rw [generated, step_generates]
  by_cases h : s.halvesAhead m = 0 ∧ s.PeriodEnds
  · rw [if_pos h, if_pos h, periodStart_eq (halvesAhead_eq_zero.1 h.1).1]
    rfl
  · rw [if_neg h, if_neg h]
    rfl

/-- **All steps** of not more than one lap of the time. The induction is on the steps; what they
leave is the half periods ahead. -/
theorem generated_inTurn (h : n ≤ 2 ^ 39) : generated s (inTurn m n) =
    if s.halvesAhead m < n ∧ s.PeriodEnds then
      [(s.periodStart, ⟨s.head.event, BitVec.ofNat 32 s.offset⟩)] else [] := by
  induction n generalizing s m with
  | zero => rw [if_neg fun h => Nat.not_lt_zero _ h.1]; rfl
  | succ n ih =>
    have hends : (s.step m).1.PeriodEnds ↔ s.PeriodEnds := by
      rw [EventGen.PeriodEnds, periodStart_step, EventGen.PeriodEnds]
    rw [inTurn, generated_cons, ih (by omega), halvesAhead_step, head_step, periodStart_step,
      offset_step]
    simp only [hends]
    by_cases hzero : s.halvesAhead m = 0
    · have hlate : ¬2 ^ 39 - 1 < n := by omega
      simp only [hzero, if_true, hlate, true_and, false_and, if_false, List.append_nil,
        Nat.succ_pos]
    · simp only [hzero, if_false, false_and, List.nil_append]
      have hlt : s.halvesAhead m - 1 < n ↔ s.halvesAhead m < n + 1 := by omega
      simp only [hlt]

/-! ## Events that are installed early enough -/

theorem count_inTurn : (inTurn m n).count .selfInc = if m = .selfInc then (n + 1) / 2 else n / 2 := by
  induction n generalizing m with
  | zero => cases m <;> rfl
  | succ n ih =>
    rw [inTurn, List.count_cons, ih]
    cases m with
    | selfInc =>
      simp only [McStep.other, reduceCtorEq, if_false, beq_self_eq_true, if_true]
      omega
    | helper =>
      simp only [McStep.other, if_true, reduceCtorEq, beq_iff_eq, if_false, add_zero]

/-- Steps that take the counter past an event, which is two periods away at first, serve its half
period. -/
theorem halvesAhead_lt (hfar : 2 * counterPeriod ≤ (s.head.time - s.mcTime).toNat)
    (hreach : (s.head.time - s.mcTime).toNat <
      ((inTurn m n).count .selfInc + 1) * counterPeriod) : s.halvesAhead m < n := by
  have hfiring : s.head.time - s.firing = s.head.time - s.mcTime - 0x4000000 := by
    rw [EventGen.firing, advance_mcTime, sub_add_eq_sub_sub]
  have hperiod := BitVec.toNat_sub (s.head.time - s.mcTime) (0x4000000 : HwTime)
  have hlt := (s.head.time - s.mcTime).isLt
  have hwhole : (0x4000000 : HwTime).toNat = 0x4000000 := rfl
  rw [count_inTurn, counterPeriod] at hreach
  rw [counterPeriod] at hfar
  cases m with
  | selfInc =>
    have hsub := BitVec.toNat_sub (s.head.time - s.mcTime - 0x4000000) (0x2000000 : HwTime)
    have hhalf : (0x2000000 : HwTime).toNat = 0x2000000 := rfl
    rw [if_pos rfl] at hreach
    rw [EventGen.halvesAhead, EventGen.ahead, hfiring, halfPeriod]
    omega
  | helper =>
    rw [if_neg (by decide)] at hreach
    rw [EventGen.halvesAhead, EventGen.ahead, hfiring, halfPeriod]
    omega

theorem EventGen.PeriodEnds.time_eq (h : s.PeriodEnds) :
    s.head.time.toNat = s.periodStart.toNat + s.offset := by
  have hoffset : s.offset < counterPeriod := Nat.mod_lt _ (by decide)
  have htime : s.head.time = s.periodStart + BitVec.ofNat 64 s.offset := by
    rw [EventGen.periodStart, sub_add_cancel]
  have hsum := congrArg BitVec.toNat htime
  rw [EventGen.PeriodEnds] at h
  rw [counterPeriod] at h hoffset
  rw [BitVec.toNat_add, BitVec.toNat_ofNat] at hsum
  omega

/-- **An event is generated once** by the steps that take the counter past it, if and only if the
period that holds it ends below `2 ^ 64`. The event is at least two periods away when it is
installed, and the steps do not come to it a second time in 64 bits. -/
theorem generated_once_iff (s : EventGen) (first : McStep) (n : ℕ)
    (hfar : 2 * counterPeriod ≤ (s.head.time - s.mcTime).toNat)
    (hreach : (s.head.time - s.mcTime).toNat <
      ((inTurn first n).count .selfInc + 1) * counterPeriod)
    (hlap : n ≤ 2 ^ 39) :
    GeneratedOnce s (inTurn first n) ↔ s.PeriodEnds := by
  have hserved := halvesAhead_lt hfar hreach
  have hoffset : s.offset < counterPeriod := Nat.mod_lt _ (by decide)
  rw [GeneratedOnce, generated_inTurn hlap]
  constructor
  · rintro ⟨_, _, hlist, -⟩
    by_contra hends
    rw [if_neg fun h => hends h.2] at hlist
    exact List.cons_ne_nil _ _ hlist.symm
  · intro hends
    rw [if_pos ⟨hserved, hends⟩]
    refine ⟨_, _, rfl, ?_⟩
    have hword : (BitVec.ofNat 32 s.offset).toNat = s.offset := by
      rw [counterPeriod] at hoffset
      rw [BitVec.toNat_ofNat, Nat.mod_eq_of_lt (by omega)]
    rw [hword]
    exact ⟨hends.time_eq, hoffset⟩

/-- The start of the SA data, a tick before the end of the time. -/
def lastTick : EventGen := ⟨0xFFFFFFFFF4000000, ⟨1, 0xFFFFFFFFFFFFFFFF⟩⟩

/-- The period that holds the last tick ends at `2 ^ 64`, which is compared as `0`. -/
theorem last_tick_lost : ¬∀ (s : EventGen) (first : McStep) (n : ℕ),
    s.mcTime.toNat + 2 * counterPeriod ≤ s.head.time.toNat →
      (s.head.time - s.mcTime).toNat < ((inTurn first n).count .selfInc + 1) * counterPeriod →
      n ≤ 2 ^ 39 → GeneratedOnce s (inTurn first n) := by
  intro h
  obtain ⟨_, _, hlist, -⟩ :=
    h lastTick .helper 4 (by decide +kernel) (by decide +kernel) (by decide)
  have hnone : generated lastTick (inTurn .helper 4) = [] := by decide +kernel
  exact List.cons_ne_nil _ _ (hlist.symm.trans hnone)

/-- An event two and a half periods away. -/
def nearEvent : EventGen := ⟨0, ⟨1, 0xA000000⟩⟩

theorem generated_once_near : GeneratedOnce nearEvent (inTurn .selfInc 4) ↔ nearEvent.PeriodEnds :=
  generated_once_iff nearEvent .selfInc 4 (by decide +kernel) (by decide +kernel) (by decide)

end LiberaDaq.Kernel
