import Mathlib.Tactic.IntervalCases
import LiberaDaq.Transform.Spikes

/-!
# The turns of the last loop

The indices of the transform that removes spikes, as numbers modulo `2 ^ 32`: the edge at which the
search for a first edge ends, and from it the average and the hold interval of every turn. With them
it is said exactly for which buffers the transform ends and keeps to its buffer.
-/

namespace LiberaDaq.Transform

open Cspi

/-! ## Values of `size_t` -/

theorem size_lt (x : ℤ) : size x < 2 ^ 32 := by
  rw [size]
  omega

@[simp] theorem size_add (x y : ℤ) : size (size x + y) = size (x + y) := by
  simp only [size]
  omega

theorem size_eq {x : ℤ} {n : ℕ} (h : x = n) (hn : n < 2 ^ 32) : size x = n := by
  rw [size, h]
  omega

/-! ## The accepted configurations -/

/-- The members of the group `sr` that the validators accept. -/
structure SpikesValid (cache : Cache) : Prop where
  start : ebppIsValidInt5 (cache.sr .start) = true
  averagingStop : ebppIsValidInt5 (cache.sr .averagingStop) = true
  averageWindow : ebppIsValidAveragewindow (cache.sr .averageWindow) = true
  window : ebppIsValidUint7 (cache.sr .window) = true

theorem int5_range {w : Word} (h : ebppIsValidInt5 w = true) : -16 ≤ w.toInt ∧ w.toInt ≤ 15 := by
  simpa [ebppIsValidInt5, inRange] using h

theorem uint7_range {w : Word} (h : ebppIsValidUint7 w = true) : 0 ≤ w.toInt ∧ w.toInt ≤ 127 := by
  simpa [ebppIsValidUint7, inRange] using h

/-- An accepted window for the averages is zero or a power of two. -/
theorem averageWindow_cases {w : Word} (h : ebppIsValidAveragewindow w = true) :
    (w = 0 ∧ countShifts 64 w = (0, 64)) ∨
      ∃ s < 5, w.toInt = 2 ^ s ∧ countShifts 64 w = (1, s) := by
  have hle : w.toNat < 17 := by
    by_contra hgt
    have hlt : (16 : Word) < w := by
      rw [BitVec.lt_def]
      change 16 < w.toNat
      omega
    rw [ebppIsValidAveragewindow, if_pos hlt] at h
    exact Bool.false_ne_true h
  have hall : ∀ n < 17, ebppIsValidAveragewindow (.ofNat 32 n) = true →
      (BitVec.ofNat 32 n = 0 ∧ countShifts 64 (.ofNat 32 n) = (0, 64)) ∨
        ∃ s < 5, (BitVec.ofNat 32 n).toInt = 2 ^ s ∧ countShifts 64 (.ofNat 32 n) = (1, s) := by
    decide +kernel
  have hw := hall w.toNat hle
  rw [BitVec.ofNat_toNat, BitVec.setWidth_eq] at hw
  exact hw h

theorem averageWindow_range {w : Word} (h : ebppIsValidAveragewindow w = true) :
    0 ≤ w.toInt ∧ w.toInt ≤ 16 := by
  rcases averageWindow_cases h with ⟨rfl, -⟩ | ⟨s, hs, hw, -⟩
  · decide
  · rw [hw]
    interval_cases s <;> decide

/-! ## The indices of a turn -/

/-- The first edge at which an average begins inside the buffer. -/
def firstEdge (cache : Cache) : ℕ := size (-averageOffset cache)

/-- The indices of turn `k` from the edge at `e` on. -/
def turnAt (cache : Cache) (e period k : ℕ) : Turn where
  avestart := size (e + averageOffset cache + k * period)
  avestop := size (e + (cache.sr .start).toInt + (cache.sr .averagingStop).toInt + k * period)
  holdstart := size (e + (cache.sr .start).toInt + k * period)
  holdstop := size (e + (cache.sr .start).toInt + (cache.sr .window).toInt - 1 + k * period)

theorem start_eq (cache : Cache) (e period : ℕ) : Turn.start cache e = turnAt cache e period 0 := by
  ext <;> simp only [Turn.start, turnAt, averageOffset, size] <;> omega

theorem next_turnAt (cache : Cache) (e period k : ℕ) :
    (turnAt cache e period k).next period = turnAt cache e period (k + 1) := by
  ext <;> simp only [Turn.next, turnAt, size_add] <;> push_cast <;> ring_nf

/-- The last atom of an average, from its first one. -/
theorem turnAt_avestop (cache : Cache) (e period k : ℕ) : (turnAt cache e period k).avestop =
    size ((turnAt cache e period k).avestart + ((cache.sr .averageWindow).toInt - 1)) := by
  rw [turnAt, size_add, averageOffset]
  dsimp only
  congr 1
  ring

/-- The number of atoms in an average. -/
def averageCount (cache : Cache) : ℕ := (cache.sr .averageWindow).toInt.toNat

theorem averageCount_cast {cache : Cache} (h : SpikesValid cache) :
    (averageCount cache : ℤ) = (cache.sr .averageWindow).toInt :=
  Int.toNat_of_nonneg (averageWindow_range h.averageWindow).1

/-- The search for the first edge ends after `n` steps. -/
def Finds (cache : Cache) (eb period n : ℕ) : Prop :=
  (∀ j < n, size (eb + j * period) < firstEdge cache) ∧ firstEdge cache ≤ size (eb + n * period)

theorem iterate_size (period : ℕ) {eb : ℕ} (heb : eb < 2 ^ 32) (n : ℕ) :
    (fun e : ℕ => size (e + period))^[n] eb = size (eb + n * period) := by
  induction n with
  | zero =>
    rw [Function.iterate_zero_apply, size]
    omega
  | succ n ih =>
    rw [Function.iterate_succ_apply', ih, size_add]
    congr 1
    push_cast
    ring

theorem skipEdges_ok {cache : Cache} {period fuel eb e : ℕ} (heb : eb < 2 ^ 32) :
    skipEdges cache period fuel eb = .ok e ↔
      ∃ n < fuel, Finds cache eb period n ∧ e = size (eb + n * period) := by
  refine (loop_ok_iff (f := fun e : ℕ => size (e + period)) fun s => rfl).trans ?_
  simp only [iterate_size period heb, decide_eq_true_eq, decide_eq_false_iff_not, not_lt, Finds,
    firstEdge, and_assoc]

/-! ## The indices inside the buffer -/

section Indices

variable {cache : Cache} {count eb period n e : ℕ}

/-- What holds where the last loop begins: an accepted configuration, a buffer in an address space
of `2 ^ 32` bytes, and the edge that the search has found. -/
structure Found (cache : Cache) (count eb period n e : ℕ) : Prop where
  valid : SpikesValid cache
  space : count ≤ 2 ^ 27
  begin_lt : eb < count
  period_pos : 0 < period
  period_lt : period < count
  finds : Finds cache eb period n
  edge : e = size (eb + n * period)

variable (h : Found cache count eb period n e)
include h

theorem Found.edge_lt : e < 2 ^ 32 := by
  rw [h.edge]
  exact size_lt _

theorem Found.first_le : firstEdge cache ≤ e := by
  rw [h.edge]
  exact h.finds.2

/-- The first edge and the offset of the average cancel. -/
theorem Found.average_eq : size (e + averageOffset cache) = e - firstEdge cache := by
  have hfirst := h.first_le
  have hlt := h.edge_lt
  rw [firstEdge, size] at hfirst
  rw [firstEdge, size, size]
  omega

/-- The search does not leave the first edge far behind. -/
theorem Found.average_le : e - firstEdge cache ≤ count + 47 := by
  obtain ⟨hstart, hstart'⟩ := int5_range h.valid.start
  obtain ⟨hstop, hstop'⟩ := int5_range h.valid.averagingStop
  obtain ⟨hwindow, hwindow'⟩ := averageWindow_range h.valid.averageWindow
  have hfirst := h.first_le
  have hlt := h.edge_lt
  have hcount := h.space
  have hperiod := h.period_lt
  have hbegin := h.begin_lt
  rcases n with _ | n
  · have hedge : e = eb := by
      rw [h.edge, size]
      omega
    omega
  · have hbefore := h.finds.1 n n.lt_succ_self
    have hedge : e = size ((size (eb + n * period) : ℤ) + period) := by
      rw [h.edge, size_add]
      congr 1
      push_cast
      ring
    have hsmall : firstEdge cache ≤ 47 ∨ 2 ^ 32 - 31 ≤ firstEdge cache := by
      rw [firstEdge, averageOffset, size]
      omega
    rw [size] at hedge
    omega

theorem Found.avestart_eq {k : ℕ} (hk : k * period < count) :
    (turnAt cache e period k).avestart = e - firstEdge cache + k * period := by
  have hle := h.average_le
  have hcount := h.space
  have hzero := h.average_eq
  rw [turnAt]
  dsimp only
  rw [← size_add, hzero]
  exact size_eq (by push_cast; ring) (by omega)

theorem Found.avestop_eq {k : ℕ} (hk : k * period < count) (hwindow : 0 < averageCount cache) :
    (turnAt cache e period k).avestop =
      e - firstEdge cache + k * period + (averageCount cache - 1) := by
  have hle := h.average_le
  have hcount := h.space
  have hcast := averageCount_cast h.valid
  obtain ⟨-, hwindow'⟩ := averageWindow_range h.valid.averageWindow
  rw [turnAt_avestop, h.avestart_eq hk]
  exact size_eq (by omega) (by omega)

/-- Without atoms to average the interval ends before it begins, unless it begins with the
buffer. -/
theorem Found.avestop_empty {k : ℕ} (hk : k * period < count) (hwindow : averageCount cache = 0) :
    (turnAt cache e period k).avestop =
      if e - firstEdge cache + k * period = 0 then 2 ^ 32 - 1
      else e - firstEdge cache + k * period - 1 := by
  have hle := h.average_le
  have hcount := h.space
  have hcast := averageCount_cast h.valid
  rw [turnAt_avestop, h.avestart_eq hk, ← hcast, hwindow]
  split
  · rw [size]
    omega
  · exact size_eq (by omega) (by omega)

/-- While the turns before it hold atoms of the buffer, the hold interval of a turn begins where it
should. -/
theorem Found.holdstart_eq {k : ℕ}
    (hk : ∀ j < k, size (e + (cache.sr .start).toInt) + j * period < count) :
    (turnAt cache e period k).holdstart = size (e + (cache.sr .start).toInt) + k * period := by
  have hcount := h.space
  have hperiod := h.period_lt
  have hsmall : size (e + (cache.sr .start).toInt) + k * period < 2 ^ 32 := by
    rcases k with _ | k
    · have hlt := size_lt (e + (cache.sr .start).toInt)
      omega
    · have hlast := hk k k.lt_succ_self
      rw [Nat.succ_mul]
      omega
  rw [turnAt]
  dsimp only
  rw [← size_add]
  exact size_eq (by push_cast; ring) hsmall

end Indices

/-! ## The faults of a turn -/

section Faults

variable {b : Build} {P : Fault → Prop}

theorem access_faults {count i : ℕ} (h : i < count ∨ P .outside) : FaultsIn P (access count i) := by
  intro e he
  rw [access] at he
  split at he
  · cases he
  · cases he
    exact h.resolve_left ‹_›

theorem access_ok {count i : ℕ} {u : Unit} (h : access count i = .ok u) : i < count := by
  rw [access] at h
  split at h
  · assumption
  · cases h

theorem transformFrom_faults (h : b.StopsOnlyFor P) {cache : Cache} {inp out count : ℕ}
    (hplaced : Placed (8 * count) inp out) (m : Memory) :
    FaultsIn P (transformFrom b cache inp out 0 count m) := by
  intro e he
  obtain ⟨j, -, -, herror, -⟩ := transformFrom_error hplaced (by omega) he
  exact transformAtom_faults h.toStopsFor h.divZero cache _ e herror

theorem accumulateTurn_faults (h : b.StopsFor P) {out count : ℕ} {t : Turn}
    (ht : t.avestart < count ∨ P .outside) (m : Memory) (s : ℕ × Sums) :
    FaultsIn P (accumulateTurn b out count t m s) :=
  (access_faults ht).bind fun _ _ => (h.int64 _).bind fun _ _ => (h.int64 _).bind fun _ _ =>
    (h.int64 _).bind fun _ _ => (h.int64 _).bind fun _ _ => faultsIn_ok _

theorem accumulateTurn_fst {out count : ℕ} {t : Turn} {m : Memory} {s s' : ℕ × Sums}
    (h : accumulateTurn b out count t m s = .ok s') :
    t.avestart < count ∧ s'.1 = size (s.1 + 1) := by
  obtain ⟨u, hu, h⟩ := bind_ok.1 h
  obtain ⟨_, _, h⟩ := bind_ok.1 h
  obtain ⟨_, _, h⟩ := bind_ok.1 h
  obtain ⟨_, _, h⟩ := bind_ok.1 h
  obtain ⟨_, _, h⟩ := bind_ok.1 h
  cases h
  exact ⟨access_ok hu, rfl⟩

/-- The average of a turn ends, and is read inside the buffer. -/
structure AverageInside (count fuel : ℕ) (t : Turn) : Prop where
  stops : t.avestop < 2 ^ 32 - 1
  fuel : t.avestop + 1 - t.avestart < fuel
  inside : t.avestart < count ∨ t.avestop < t.avestart

theorem accumulate_faults (h : b.StopsFor P) {out count fuel : ℕ} {t : Turn}
    (ht : AverageInside count fuel t ∨ (P .outside ∧ P .unfinished)) (m : Memory) :
    FaultsIn P (accumulate b out count fuel t m) := by
  refine FaultsIn.bind ?_ fun _ _ => faultsIn_ok _
  intro e he
  rcases ht with ht | ⟨hout, hstuck⟩
  · have hstep : ∀ s s' : ℕ × Sums, t.avestart ≤ s.1 → decide (s.1 ≤ t.avestop) = true →
        accumulateTurn b out count t m s = .ok s' →
          t.avestart ≤ s'.1 ∧ t.avestop + 1 - s'.1 < t.avestop + 1 - s.1 := by
      intro s s' hs hguard hs'
      have hstops := ht.stops
      have hle := of_decide_eq_true hguard
      have hnext : s'.1 = s.1 + 1 := by
        rw [(accumulateTurn_fst hs').2]
        exact size_eq rfl (by omega)
      omega
    have hinside : ∀ s : ℕ × Sums, t.avestart ≤ s.1 → decide (s.1 ≤ t.avestop) = true →
        t.avestart < count := by
      intro s hs hguard
      have hle := of_decide_eq_true hguard
      have hin := ht.inside
      omega
    rcases loop_error (fun s s' hs hg hb => (hstep s s' hs hg hb).1) le_rfl he with
      rfl | ⟨s, hs, hguard, hbody⟩
    · by_contra hstuck
      refine loop_ends hstep (fun s hs hguard hbody => hstuck ?_) le_rfl ht.fuel he
      exact accumulateTurn_faults h (.inl (hinside s hs hguard)) m s _ hbody
    · exact accumulateTurn_faults h (.inl (hinside s hs hguard)) m s e hbody
  · rcases loop_error_cases he with rfl | ⟨s, -, hbody⟩
    · exact hstuck
    · exact accumulateTurn_faults h (.inr hout) m s e hbody

theorem averageCoordinate_faults (h : b.StopsFor P) (x k : ℤ) {S : ℤ} (offset : ℤ)
    (hS : S = 0 → ∀ x, FaultsIn P (b.divZero x)) :
    FaultsIn P (averageCoordinate b x k S offset) :=
  (h.int64 _).bind fun _ _ => (h.div64 _ hS).bind fun _ _ => h.int64 _

theorem averageAtom_faults (h : b.StopsOnlyFor P) (cache : Cache) (shifts : ℕ) (s : Sums) :
    FaultsIn P (averageAtom b cache shifts s) := by
  have hcast : ∀ x, FaultsIn P (b.castInt x) := h.castInt
  have hcoordinate : ∀ x k S offset, FaultsIn P (averageCoordinate b x k S offset) :=
    fun x k S offset => averageCoordinate_faults h.toStopsFor x k offset fun _ => h.divZero
  exact (h.shift64 _ _).bind fun _ _ => (h.shift64 _ _).bind fun _ _ =>
    (h.shift64 _ _).bind fun _ _ => (h.shift64 _ _).bind fun _ _ =>
    (hcoordinate _ _ _ _).bind fun _ _ => (hcoordinate _ _ _ _).bind fun _ _ =>
    (hcoordinate _ _ _ _).bind fun _ _ => (hcast _).bind fun _ _ => (hcast _).bind fun _ _ =>
    (hcast _).bind fun _ _ => (hcast _).bind fun _ _ => (hcast _).bind fun _ _ =>
    (hcast _).bind fun _ _ => (hcast _).bind fun _ _ => (hcast _).bind fun _ _ => faultsIn_ok _

theorem copyAtoms_ok (out count hs : ℕ) {n i : ℕ} (h : i + n ≤ count) (m : Memory) :
    ∃ m', copyAtoms out count hs n i m = .ok m' := by
  induction n generalizing i m with
  | zero => exact ⟨m, rfl⟩
  | succ n ih =>
    rw [copyAtoms, access, if_pos (by omega), ok_bind]
    exact ih (by omega) _

/-- The last atom that a turn writes. -/
def lastHeld (count : ℕ) (t : Turn) : ℕ := if t.holdstop < count then t.holdstop else count - 1

theorem holdTurn_eq (b : Build) (cache : Cache) {out count : ℕ} (shifts fuel : ℕ) (t : Turn)
    (m : Memory) (hcount : count < 2 ^ 32) (ht : t.holdstart < count) :
    holdTurn b cache out count shifts fuel t m = (do
      let sums ← accumulate b out count fuel t m
      let atom ← averageAtom b cache shifts sums
      copyAtoms out count t.holdstart (lastHeld count t - t.holdstart) (t.holdstart + 1)
        (putAtom m (out + 8 * t.holdstart) atom)) := by
  have hlast : size (count - 1) = count - 1 := size_eq (by omega) (by omega)
  rw [holdTurn, access, if_pos ht, hlast]
  rfl

theorem holdTurn_faults (h : b.StopsOnlyFor P) (cache : Cache) {out count : ℕ} (shifts : ℕ)
    {fuel : ℕ} {t : Turn} (ht : AverageInside count fuel t ∨ (P .outside ∧ P .unfinished))
    (hcount : count < 2 ^ 32) (hhold : t.holdstart < count) (m : Memory) :
    FaultsIn P (holdTurn b cache out count shifts fuel t m) := by
  rw [holdTurn_eq b cache shifts fuel t m hcount hhold]
  refine (accumulate_faults h.toStopsFor ht m).bind fun sums _ =>
    (averageAtom_faults h cache shifts sums).bind fun atom _ => ?_
  have hlast : lastHeld count t < count := by
    rw [lastHeld]
    split <;> omega
  obtain ⟨m', hm'⟩ := copyAtoms_ok out count t.holdstart
    (show t.holdstart + 1 + (lastHeld count t - t.holdstart) ≤ count by omega)
    (putAtom m (out + 8 * t.holdstart) atom)
  rw [hm']
  exact faultsIn_ok m'

end Faults

/-! ## The faults of the last loop -/

/-- Every turn of the last loop averages atoms of the buffer. Without atoms to average, the first
turn must not begin its average with the buffer: the interval would end before index `0`. -/
def TurnsInside (cache : Cache) (count period e : ℕ) : Prop :=
  ∀ k, size (e + (cache.sr .start).toInt) + k * period < count →
    if averageCount cache = 0 then e - firstEdge cache + k * period ≠ 0
    else e - firstEdge cache + k * period < count

section Loop

variable {b : Build} {P : Fault → Prop} {cache : Cache} {count eb period n e : ℕ}

/-- The turns before this one hold atoms of the buffer. -/
def Reached (cache : Cache) (count period e k : ℕ) : Prop :=
  ∀ j < k, size (e + (cache.sr .start).toInt) + j * period < count

theorem Reached.succ {k : ℕ} (h : Reached cache count period e k)
    (hk : size (e + (cache.sr .start).toInt) + k * period < count) :
    Reached cache count period e (k + 1) := by
  intro j hj
  rcases Nat.lt_succ_iff_lt_or_eq.1 hj with hj | rfl
  · exact h j hj
  · exact hk

variable (h : Found cache count eb period n e)
include h

theorem Found.averageInside {fuel : ℕ} (hfuel : 17 < fuel)
    (hturns : TurnsInside cache count period e)
    {k : ℕ} (hk : size (e + (cache.sr .start).toInt) + k * period < count) :
    AverageInside count fuel (turnAt cache e period k) := by
  have hturn := hturns k hk
  have hcount := h.space
  have hle := h.average_le
  have hperiod : k * period < count := by omega
  have hcast := averageCount_cast h.valid
  obtain ⟨-, hwindow⟩ := averageWindow_range h.valid.averageWindow
  have hstart := h.avestart_eq hperiod
  rcases Nat.eq_zero_or_pos (averageCount cache) with hzero | hpos
  · rw [if_pos hzero] at hturn
    have hstop := h.avestop_empty hperiod hzero
    rw [if_neg hturn] at hstop
    constructor <;> omega
  · rw [if_neg hpos.ne'] at hturn
    have hstop := h.avestop_eq hperiod hpos
    constructor <;> omega

theorem holdStep_faults (hb : b.StopsOnlyFor P) {out shifts fuel : ℕ}
    (hturns : (TurnsInside cache count period e ∧ 17 < fuel) ∨ (P .outside ∧ P .unfinished))
    {k : ℕ} (hk : Reached cache count period e k)
    (hguard : (turnAt cache e period k).holdstart < count) (m : Memory) :
    FaultsIn P
      (holdStep b cache out count shifts period fuel (turnAt cache e period k, m)) := by
  have hspace := h.space
  refine (holdTurn_faults hb cache shifts ?_ (by omega) hguard m).bind fun _ _ => faultsIn_ok _
  rcases hturns with ⟨hinside, hfuel⟩ | hP
  · rw [h.holdstart_eq hk] at hguard
    exact .inl (h.averageInside hfuel hinside hguard)
  · exact .inr hP

/-- A turn leads to the next one, nearer to the end of the buffer. -/
theorem holdStep_next {out shifts fuel k : ℕ} (hk : Reached cache count period e k)
    (hguard : (turnAt cache e period k).holdstart < count) {m : Memory} {s' : Turn × Memory}
    (hs' : holdStep b cache out count shifts period fuel (turnAt cache e period k, m) = .ok s') :
    s'.1 = turnAt cache e period (k + 1) ∧ Reached cache count period e (k + 1) ∧
      count - s'.1.holdstart < count - (turnAt cache e period k).holdstart := by
  obtain ⟨m', -, hs'⟩ := bind_ok.1 hs'
  cases hs'
  rw [h.holdstart_eq hk] at hguard
  have hnext := hk.succ hguard
  have hpos := h.period_pos
  refine ⟨next_turnAt .., hnext, ?_⟩
  dsimp only
  rw [next_turnAt, h.holdstart_eq hk, h.holdstart_eq hnext, Nat.succ_mul]
  omega

theorem holdLoop_faults (hb : b.StopsOnlyFor P) {out shifts fuel : ℕ}
    (hturns : (TurnsInside cache count period e ∧ 17 < fuel ∧ count < fuel) ∨
      (P .outside ∧ P .unfinished)) (m : Memory) :
    FaultsIn P
      (holdLoop b cache out count shifts period fuel fuel (Turn.start cache e, m)) := by
  let Inv : Turn × Memory → Prop := fun s =>
    ∃ k, s.1 = turnAt cache e period k ∧ Reached cache count period e k
  have hturn : ∀ s : Turn × Memory, Inv s → decide (s.1.holdstart < count) = true →
      FaultsIn P (holdStep b cache out count shifts period fuel s) := by
    rintro ⟨t, m⟩ ⟨k, rfl, hk⟩ hguard
    exact holdStep_faults h hb (hturns.imp_left fun hin => ⟨hin.1, hin.2.1⟩) hk
      (of_decide_eq_true hguard) m
  have hstep : ∀ s s' : Turn × Memory, Inv s → decide (s.1.holdstart < count) = true →
      holdStep b cache out count shifts period fuel s = .ok s' →
        Inv s' ∧ count - s'.1.holdstart < count - s.1.holdstart := by
    rintro ⟨t, m⟩ s' ⟨k, rfl, hk⟩ hguard hs'
    obtain ⟨hnext, hreached, hless⟩ := holdStep_next h hk (of_decide_eq_true hguard) hs'
    exact ⟨⟨k + 1, hnext, hreached⟩, hless⟩
  have hstart : Inv (Turn.start cache e, m) :=
    ⟨0, start_eq cache e period, fun j hj => absurd hj j.not_lt_zero⟩
  intro error herror
  rcases loop_error (fun s s' hs hg hs' => (hstep s s' hs hg hs').1) hstart herror with
    rfl | ⟨s, hs, hguard, hs'⟩
  · by_contra hstuck
    rcases hturns with ⟨-, -, hfuel⟩ | hP
    · refine loop_ends hstep (fun s hs hguard hs' => hstuck ?_) hstart ?_ herror
      · exact hturn s hs hguard _ hs'
      · exact (Nat.sub_le _ _).trans_lt hfuel
    · exact hstuck hP.2
  · exact hturn s hs hguard error hs'

/-- A last loop that ended made every turn. -/
theorem holdLoop_reaches {out shifts fuel turns : ℕ} {m : Memory} {s' : Turn × Memory}
    (hok : holdLoop b cache out count shifts period fuel turns (Turn.start cache e, m) = .ok s')
    (k : ℕ) (hk : Reached cache count period e k) :
    ∃ turns' m', holdLoop b cache out count shifts period fuel turns'
      (turnAt cache e period k, m') = .ok s' := by
  induction k with
  | zero =>
    rw [start_eq cache e period] at hok
    exact ⟨turns, m, hok⟩
  | succ k ih =>
    have hbefore : Reached cache count period e k := fun j hj => hk j (by omega)
    obtain ⟨turns', m', hloop⟩ := ih hbefore
    have hguard : (turnAt cache e period k).holdstart < count := by
      rw [h.holdstart_eq hbefore]
      exact hk k k.lt_succ_self
    obtain ⟨⟨t, m''⟩, turns'', hturn, hrest⟩ := loop_first hloop (decide_eq_true hguard)
    obtain ⟨rfl, -, -⟩ := holdStep_next h hbefore hguard hturn
    exact ⟨turns'', m'', hrest⟩

omit h in
theorem accumulate_inside {out fuel : ℕ} {t : Turn} {m : Memory} {s : Sums}
    (hok : accumulate b out count fuel t m = .ok s) (ht : t.avestart < 2 ^ 32) :
    (t.avestart ≤ t.avestop → t.avestart < count) ∧ t.avestop ≠ 2 ^ 32 - 1 := by
  obtain ⟨s', hloop, -⟩ := bind_ok.1 hok
  constructor
  · intro hle
    obtain ⟨s₁, -, hturn, -⟩ := loop_first hloop (decide_eq_true hle)
    exact (accumulateTurn_fst hturn).1
  · intro hstop
    have hlt : ∀ s s' : ℕ × Sums, s.1 < 2 ^ 32 → decide (s.1 ≤ t.avestop) = true →
        accumulateTurn b out count t m s = .ok s' → s'.1 < 2 ^ 32 := by
      intro s s' _ _ hs'
      rw [(accumulateTurn_fst hs').2]
      exact size_lt _
    obtain ⟨hlast, hguard⟩ := loop_invariant hlt ht hloop
    have hgt := of_decide_eq_false hguard
    omega

theorem turnsInside_of_ok {out shifts fuel turns : ℕ} {m : Memory} {s' : Turn × Memory}
    (hok : holdLoop b cache out count shifts period fuel turns (Turn.start cache e, m) = .ok s') :
    TurnsInside cache count period e := by
  intro k hk
  have hreached : Reached cache count period e k := by
    intro j hj
    have hle := Nat.mul_le_mul_right period hj.le
    omega
  obtain ⟨turns', m', hloop⟩ := holdLoop_reaches h hok k hreached
  have hguard : (turnAt cache e period k).holdstart < count := by
    rw [h.holdstart_eq hreached]
    exact hk
  obtain ⟨s₁, -, hturn, -⟩ := loop_first hloop (decide_eq_true hguard)
  obtain ⟨m'', hturn, -⟩ := bind_ok.1 hturn
  obtain ⟨sums, hsums, -⟩ := bind_ok.1 hturn
  have hperiod : k * period < count := by omega
  have hstart := h.avestart_eq hperiod
  have hle := h.average_le
  have hspace := h.space
  have hlt : (turnAt cache e period k).avestart < 2 ^ 32 := by omega
  obtain ⟨hin, hne⟩ := accumulate_inside hsums hlt
  rcases Nat.eq_zero_or_pos (averageCount cache) with hzero | hpos
  · rw [if_pos hzero]
    intro hbegin
    rw [h.avestop_empty hperiod hzero, if_pos hbegin] at hne
    exact hne rfl
  · rw [if_neg hpos.ne', ← hstart]
    refine hin ?_
    rw [h.avestop_eq hperiod hpos, hstart]
    omega

end Loop

/-! ## The transform keeps to its buffer -/

/-- The transform ends, if not before by a fault of the arithmetic, and no index that it reads or
writes is outside of the buffer. -/
def KeepsToBuffer (b : Build) (cache : Cache) (inp out count : ℕ) (m : Memory) : Prop :=
  ∃ fuel, ∀ e, ebppTransformDdRemoveSpikes b cache inp out count fuel m = .error e →
    e.Arithmetical

/-- The buffer has an atom. If its trigger bit has two edges, the search for the first edge at which
an average can begin ends, and from there on every turn averages atoms of the buffer. -/
def IndicesInside (cache : Cache) (inp count : ℕ) (m : Memory) : Prop :=
  0 < count ∧ (edgeBegin m inp count < count → edgeEnd m inp count < count →
    ∃ n, let period := edgeEnd m inp count - edgeBegin m inp count
      Finds cache (edgeBegin m inp count) period n ∧
        TurnsInside cache count period (size (edgeBegin m inp count + n * period)))

section Buffer

variable {b : Build} {P : Fault → Prop} {cache : Cache} {inp out count : ℕ}

theorem holdAverages_eq (hcache : SpikesValid cache) (fuel eb ee : ℕ) (m : Memory) :
    holdAverages b cache out count fuel eb ee m = (do
      let e ← skipEdges cache (ee - eb) fuel eb
      let s ← holdLoop b cache out count (countShifts 64 (cache.sr .averageWindow)).2 (ee - eb)
        fuel fuel (Turn.start cache e, m)
      pure (0, s.2)) := by
  rw [holdAverages]
  rcases averageWindow_cases hcache.averageWindow with ⟨-, hshifts⟩ | ⟨s, -, -, hshifts⟩
  · rw [hshifts]
    rfl
  · rw [hshifts]
    rfl

/-- The edge that the search finds, in a buffer with two edges. -/
theorem found_of_finds (hcache : SpikesValid cache) (hspace : 32 * count ≤ 2 ^ 32) {m : Memory}
    {n : ℕ} (hcount : 0 < count) (hend : edgeEnd m inp count < count)
    (hfinds : Finds cache (edgeBegin m inp count) (edgeEnd m inp count - edgeBegin m inp count) n) :
    Found cache count (edgeBegin m inp count) (edgeEnd m inp count - edgeBegin m inp count) n
      (size (edgeBegin m inp count + n * (edgeEnd m inp count - edgeBegin m inp count : ℕ))) := by
  obtain ⟨hpos, hle, -⟩ := edges_bounds m inp hcount
  have hlt := edgeBegin_lt_edgeEnd (lt_of_le_of_lt hle hend)
  exact ⟨hcache, by omega, by omega, by omega, by omega, hfinds, rfl⟩

theorem holdAverages_faults (hcache : SpikesValid cache) (hspace : 32 * count ≤ 2 ^ 32)
    (hb : b.StopsOnlyFor P) (hP : P .outside ∧ P .unfinished) {m m' : Memory} {fuel : ℕ}
    (hcount : 0 < count) (hend : edgeEnd m inp count < count) :
    FaultsIn P
      (holdAverages b cache out count fuel (edgeBegin m inp count) (edgeEnd m inp count) m') := by
  obtain ⟨-, hle, -⟩ := edges_bounds m inp hcount
  rw [holdAverages_eq hcache]
  refine FaultsIn.bind ?_ fun e he => ?_
  · intro error herror
    rcases loop_error_cases herror with rfl | ⟨_, -, hbody⟩
    · exact hP.2
    · exact nomatch hbody
  · obtain ⟨n, -, hfinds, rfl⟩ := (skipEdges_ok (by omega)).1 he
    exact (holdLoop_faults (found_of_finds hcache hspace hcount hend hfinds) hb (.inr hP) m').bind
      fun _ _ => faultsIn_ok _

/-- A machine that goes on stops for an index or for a loop alone. -/
theorem removeSpikes_faults (hcache : SpikesValid cache) (hplaced : Placed (8 * count) inp out)
    (hspace : 32 * count ≤ 2 ^ 32) (hb : b.StopsOnlyFor P) (hP : P .outside ∧ P .unfinished)
    (fuel : ℕ) (m : Memory) :
    FaultsIn P (ebppTransformDdRemoveSpikes b cache inp out count fuel m) := by
  rcases Nat.eq_zero_or_pos count with rfl | hcount
  · rintro e ⟨⟩
    exact hP.1
  · rw [ebppTransformDdRemoveSpikes_eq hplaced fuel hcount m]
    refine (transformFrom_faults hb hplaced m).bind fun m' _ => ?_
    obtain ⟨-, -, hle⟩ := edges_bounds m inp hcount
    split
    · exact faultsIn_ok _
    · split
      · exact faultsIn_ok _
      · exact holdAverages_faults hcache hspace hb hP hcount (by omega)

theorem keepsToBuffer_of_indicesInside (hcache : SpikesValid cache)
    (hplaced : Placed (8 * count) inp out) (hspace : 32 * count ≤ 2 ^ 32)
    (hb : b.StopsOnlyFor Fault.Arithmetical) {m : Memory} (h : IndicesInside cache inp count m) :
    KeepsToBuffer b cache inp out count m := by
  obtain ⟨hcount, h⟩ := h
  obtain ⟨-, hle, hend⟩ := edges_bounds m inp hcount
  by_cases hedges : edgeEnd m inp count < count
  · obtain ⟨n, hfinds, hturns⟩ := h (by omega) hedges
    refine ⟨n + count + 18, ?_⟩
    change FaultsIn Fault.Arithmetical _
    rw [ebppTransformDdRemoveSpikes_eq hplaced _ hcount m]
    refine (transformFrom_faults hb hplaced m).bind fun m' _ => ?_
    rw [if_neg (by omega), if_neg (by omega), holdAverages_eq hcache,
      (skipEdges_ok (by omega)).2 ⟨n, by omega, hfinds, rfl⟩, ok_bind]
    exact (holdLoop_faults (found_of_finds hcache hspace hcount hedges hfinds) hb
      (.inl ⟨hturns, by omega, by omega⟩) m').bind fun _ _ => faultsIn_ok _
  · refine ⟨0, ?_⟩
    change FaultsIn Fault.Arithmetical _
    rw [ebppTransformDdRemoveSpikes_eq hplaced _ hcount m]
    refine (transformFrom_faults hb hplaced m).bind fun m' _ => ?_
    split
    · exact faultsIn_ok _
    · rw [if_pos (by omega)]
      exact faultsIn_ok _

theorem indicesInside_of_ok (hcache : SpikesValid cache) (hplaced : Placed (8 * count) inp out)
    (hspace : 32 * count ≤ 2 ^ 32) {fuel : ℕ} {m : Memory} {r : ℤ × Memory}
    (hok : ebppTransformDdRemoveSpikes b cache inp out count fuel m = .ok r) :
    IndicesInside cache inp count m := by
  rcases Nat.eq_zero_or_pos count with rfl | hcount
  · exact nomatch hok
  · refine ⟨hcount, fun hbegin hend => ?_⟩
    rw [ebppTransformDdRemoveSpikes_eq hplaced fuel hcount m] at hok
    obtain ⟨m', -, hok⟩ := bind_ok.1 hok
    rw [if_neg hbegin.ne, if_neg hend.ne, holdAverages_eq hcache] at hok
    obtain ⟨e, hskip, hok⟩ := bind_ok.1 hok
    obtain ⟨s, hloop, -⟩ := bind_ok.1 hok
    obtain ⟨n, -, hfinds, rfl⟩ := (skipEdges_ok (by omega)).1 hskip
    exact ⟨n, hfinds, turnsInside_of_ok (found_of_finds hcache hspace hcount hend hfinds) hloop⟩

/-- **The transform keeps to its buffer exactly where its indices do.** The configuration is one
that the validators accept, and the buffer fits in an address space of `2 ^ 32` bytes. A machine
that goes on after a fault of the arithmetic ends the transform inside the buffer if and only if the
buffer has an atom, the search for the first edge ends and every turn averages atoms of the buffer;
and then a machine that stops for a fault of the arithmetic does not leave the buffer before. -/
theorem keepsToBuffer_iff (hcache : SpikesValid cache) (hplaced : Placed (8 * count) inp out)
    (hspace : 32 * count ≤ 2 ^ 32) (m : Memory) :
    (b.GoesOn → (KeepsToBuffer b cache inp out count m ↔ IndicesInside cache inp count m)) ∧
      (b.StopsOnlyFor Fault.Arithmetical → IndicesInside cache inp count m →
        KeepsToBuffer b cache inp out count m) := by
  refine ⟨fun hb => ⟨?_, ?_⟩, fun hb h => keepsToBuffer_of_indicesInside hcache hplaced hspace hb h⟩
  · rintro ⟨fuel, hkeeps⟩
    have hindex : FaultsIn (fun e => ¬e.Arithmetical)
        (ebppTransformDdRemoveSpikes b cache inp out count fuel m) :=
      removeSpikes_faults hcache hplaced hspace
        (hb.stopsOnlyFor _) ⟨id, id⟩ fuel m
    cases hrun : ebppTransformDdRemoveSpikes b cache inp out count fuel m with
    | error e => exact (hindex e hrun (hkeeps e hrun)).elim
    | ok r => exact indicesInside_of_ok hcache hplaced hspace hrun
  · exact keepsToBuffer_of_indicesInside hcache hplaced hspace (hb.stopsOnlyFor _)

end Buffer

/-- A configuration with coefficients of 10 mm and the given group `sr`. -/
def spikesCache (start averagingStop averageWindow window : ℤ) : Cache where
  kx := 10000000
  ky := 10000000
  xoffset := 0
  yoffset := 0
  qoffset := 0
  sp := fun _ => 0
  srDsc := 2
  sr := fun member => match member with
    | .enable | .cspiEnable => 1
    | .averagingStop => .ofInt 32 averagingStop
    | .averageWindow => .ofInt 32 averageWindow
    | .start => .ofInt 32 start
    | .window => .ofInt 32 window
  frequency := 0
  harmonic := 0
  frev := 0

/-- A buffer of atoms, each louder than the one before and some of them with the trigger bit. -/
def pulses (triggered : List ℕ) : Memory := fun a =>
  if a % 8 = 0 then (if a / 8 ∈ triggered then 1 else 0)
  else if a % 2 = 1 then .ofNat 32 (2000 * (a / 8 + 1))
  else 0

theorem keepsToBuffer_iff_four :
    ((Build.wrapping true).GoesOn →
        (KeepsToBuffer (.wrapping true) (spikesCache 0 (-1) 1 1) 0 0 4 (pulses [1]) ↔
          IndicesInside (spikesCache 0 (-1) 1 1) 0 4 (pulses [1]))) ∧
      ((Build.wrapping true).StopsOnlyFor Fault.Arithmetical →
        IndicesInside (spikesCache 0 (-1) 1 1) 0 4 (pulses [1]) →
          KeepsToBuffer (.wrapping true) (spikesCache 0 (-1) 1 1) 0 0 4 (pulses [1])) :=
  keepsToBuffer_iff ⟨by decide, by decide, by decide, by decide⟩ (.inl rfl) (by decide) _

/-- A search that never finds an edge does not end. -/
theorem skipEdges_unfinished {cache : Cache} {period eb : ℕ} (heb : eb < 2 ^ 32)
    (h : ∀ n : ℕ, size (eb + n * period) < firstEdge cache) (fuel : ℕ) :
    skipEdges cache period fuel eb = .error .unfinished := by
  cases hskip : skipEdges cache period fuel eb with
  | ok e =>
    obtain ⟨n, -, hfinds, -⟩ := (skipEdges_ok heb).1 hskip
    exact absurd hfinds.2 (not_le.2 (h n))
  | error e =>
    rcases loop_error_cases hskip with rfl | ⟨_, -, hbody⟩
    · rfl
    · exact nomatch hbody

/-- The averages end one atom behind the edge, so that the search looks for an edge at the last
index of `size_t`; but all edges are at even ones. -/
theorem search_unfinished :
    ¬KeepsToBuffer (.wrapping true) (spikesCache 1 0 1 1) 0 0 6 (pulses [2, 3]) := by
  rintro ⟨fuel, h⟩
  have hbegin : edgeBegin (pulses [2, 3]) 0 6 = 2 := by decide
  have hend : edgeEnd (pulses [2, 3]) 0 6 = 4 := by decide
  have hfirst : firstEdge (spikesCache 1 0 1 1) = 2 ^ 32 - 1 := by decide
  have hcache : SpikesValid (spikesCache 1 0 1 1) := ⟨by decide, by decide, by decide, by decide⟩
  have hstuck : skipEdges (spikesCache 1 0 1 1) (4 - 2) fuel 2 = .error .unfinished := by
    refine skipEdges_unfinished (by decide) (fun n => ?_) fuel
    rw [hfirst, size]
    omega
  have htransform : ∃ m', transformFrom (.wrapping true) (spikesCache 1 0 1 1) 0 0 0 6
      (pulses [2, 3]) = .ok m' :=
    (transformFrom_faults (Build.goesOn_wrapping true) (.inl rfl) _).exists_ok
  obtain ⟨m', hm'⟩ := htransform
  refine h .unfinished ?_
  rw [ebppTransformDdRemoveSpikes_eq (.inl rfl) fuel (by decide), hm', ok_bind, hbegin, hend,
    if_neg (by decide), if_neg (by decide), holdAverages_eq hcache, hstuck]
  rfl

end LiberaDaq.Transform
