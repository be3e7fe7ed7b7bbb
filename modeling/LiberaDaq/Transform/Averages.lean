import LiberaDaq.Transform.HoldValues

/-!
# What the last loop averages

The loop that accumulates stays at the first atom of its interval: it adds the amplitudes of that
atom as often as there are atoms to average, and the shift gives them back. So the held atom is the
first one of its interval, and the mean only where the two agree.
-/

namespace LiberaDaq.Transform

open Cspi Vectoring

/-! ## The accumulated values -/

/-- The amplitudes of an atom, `w` times. -/
def repeated (w : ℕ) (atom : Atom) : Sums :=
  ⟨w * atom.Va.toInt, w * atom.Vb.toInt, w * atom.Vc.toInt, w * atom.Vd.toInt⟩

theorem isInt64_mul {j : ℕ} (hj : j ≤ 16) {x : ℤ} (hx : IsInt x) : IsInt64 (j * x) := by
  obtain ⟨hlow, hhigh⟩ := hx
  rw [IsInt64]
  constructor <;> nlinarith

section Accumulate

variable {b : Build} {out count : ℕ} {t : Turn} {m : Memory}

theorem accumulateTurn_repeated {j : ℕ} (hj : j < 16) {i : ℕ} {s' : ℕ × Sums}
    (h : accumulateTurn b out count t m (i, repeated j (atoms m out t.avestart)) = .ok s') :
    s' = (size (i + 1), repeated (j + 1) (atoms m out t.avestart)) := by
  have hadd : ∀ w : Word, b.int64 (j * w.toInt + w.toInt) = .ok ((j + 1 : ℕ) * w.toInt) := by
    intro w
    have hfits := isInt64_mul (show j + 1 ≤ 16 by omega) (isInt_toInt w)
    rw [show (j : ℤ) * w.toInt + w.toInt = (j + 1 : ℕ) * w.toInt by push_cast; ring]
    exact Build.int64_of hfits
  rw [accumulateTurn] at h
  obtain ⟨-, -, h⟩ := bind_ok.1 h
  simp only [repeated, atoms, atomAt, hadd, ok_bind] at h
  exact (Except.ok.inj h).symm

/-- **The loop accumulates its first atom.** -/
theorem accumulate_repeated {w fuel : ℕ} (hpos : 0 < w) (hw : w ≤ 16)
    (hstop : t.avestop = t.avestart + (w - 1)) (hsmall : t.avestop + 1 < 2 ^ 32) {s : Sums}
    (h : accumulate b out count fuel t m = .ok s) : s = repeated w (atoms m out t.avestart) := by
  let Inv : ℕ × Sums → Prop := fun s =>
    ∃ j ≤ w, s = (t.avestart + j, repeated j (atoms m out t.avestart))
  have hstep : ∀ s s' : ℕ × Sums, Inv s → decide (s.1 ≤ t.avestop) = true →
      accumulateTurn b out count t m s = .ok s' → Inv s' := by
    rintro s s' ⟨j, hj, rfl⟩ hguard hs'
    have hle := of_decide_eq_true hguard
    dsimp only at hle
    have hnext : size ((t.avestart + j : ℕ) + 1) = t.avestart + (j + 1) :=
      size_eq (by push_cast; ring) (by omega)
    refine ⟨j + 1, by omega, ?_⟩
    rw [accumulateTurn_repeated (by omega) hs', hnext]
  have hstart : Inv (t.avestart, ⟨0, 0, 0, 0⟩) := by
    refine ⟨0, w.zero_le, ?_⟩
    simp [repeated]
  obtain ⟨s', hloop, hs⟩ := bind_ok.1 h
  obtain ⟨⟨j, hj, rfl⟩, hguard⟩ := loop_invariant hstep hstart hloop
  have hgt := of_decide_eq_false hguard
  have hall : j = w := by omega
  subst j
  exact (Except.ok.inj hs).symm

end Accumulate

/-! ## The held atom -/

theorem shift64_repeated {b : Build} {s : ℕ} (hs : s < 5) (x : ℤ) :
    b.shift64 ((2 ^ s : ℕ) * x) s = .ok x := by
  rw [Build.shift64_of (by omega), shiftRight_eq]
  push_cast
  rw [Int.mul_ediv_cancel_left x (by positivity)]

theorem averageCoordinate_eq {b : Build} {d k S offset : ℤ} {x : Word} (hS : 0 < S)
    (h : CoordinateBounds d k S offset x) : averageCoordinate b d k S offset = .ok x.toInt := by
  have hvalue := isInt_toInt x
  obtain ⟨hlow, hhigh⟩ := hvalue
  obtain ⟨hq, hq'⟩ := h.quotient
  have hquotient : IsInt64 ((d * k).tdiv S) := ⟨by omega, by omega⟩
  have hvalue64 : IsInt64 x.toInt := ⟨by omega, by omega⟩
  rw [averageCoordinate, Build.int64_of h.product, ok_bind, Build.div64_of hS.ne' hquotient,
    ok_bind, ← h.value, Build.int64_of hvalue64]

/-- An atom with amplitudes that are not negative, one of them positive. -/
structure Atom.Sounds (atom : Atom) : Prop where
  Va : IsAmplitude atom.Va.toInt
  Vb : IsAmplitude atom.Vb.toInt
  Vc : IsAmplitude atom.Vc.toInt
  Vd : IsAmplitude atom.Vd.toInt
  sum : 0 < atom.Va.toInt + atom.Vb.toInt + atom.Vc.toInt + atom.Vd.toInt

/-- The position formulas for the amplitudes of an atom. -/
def repositioned (b : Build) (cache : Cache) (atom : Atom) : Except Fault Atom :=
  positions b cache atom.Va.toInt atom.Vb.toInt atom.Vc.toInt atom.Vd.toInt

theorem averageAtom_of_bounds (b : Build) {cache : Cache} {s : ℕ} (hs : s < 5) {atom held : Atom}
    (hsum : 0 < atom.Va.toInt + atom.Vb.toInt + atom.Vc.toInt + atom.Vd.toInt)
    (hheld : AtomBounds cache atom.Va.toInt atom.Vb.toInt atom.Vc.toInt atom.Vd.toInt held) :
    averageAtom b cache s (repeated (2 ^ s) atom) = .ok held := by
  have hcast : ∀ w : Word, b.castInt w.toInt = .ok w.toInt := fun w =>
    Build.castInt_of (isInt_toInt w)
  have hshift : (atom.Va.toInt + atom.Vb.toInt + atom.Vc.toInt + atom.Vd.toInt) >>> (2 : ℕ) =
      held.Sum.toInt := by
    rw [hheld.Sum]
    exact shiftRight_eq _ 2
  obtain ⟨hVa, hVb, hVc, hVd⟩ := hheld.amplitudes
  simp only [averageAtom, repeated, shift64_repeated hs, ok_bind, averageCoordinate_eq hsum hheld.X,
    averageCoordinate_eq hsum hheld.Y, averageCoordinate_eq hsum hheld.Q, hshift, hcast,
    BitVec.ofInt_toInt]
  rw [← BitVec.toInt_inj.1 hVa, ← BitVec.toInt_inj.1 hVb, ← BitVec.toInt_inj.1 hVc,
    ← BitVec.toInt_inj.1 hVd]
  rfl

/-- **The held atom is that of the first amplitudes.** -/
theorem averageAtom_repeated (b : Build) {cache : Cache} (hcache : CoefficientsValid cache) {s : ℕ}
    (hs : s < 5) {atom : Atom} (hatom : atom.Sounds) :
    ∃ held, repositioned b cache atom = .ok held ∧ held.Sounds ∧
      averageAtom b cache s (repeated (2 ^ s) atom) = .ok held := by
  obtain ⟨held, hheld, hbounds⟩ :=
    positions_bounds b hcache hatom.Va hatom.Vb hatom.Vc hatom.Vd hatom.sum
  obtain ⟨hVa, hVb, hVc, hVd⟩ := hbounds.amplitudes
  refine ⟨held, hheld, ?_, averageAtom_of_bounds b hs hatom.sum hbounds⟩
  constructor
  · rw [hVa]
    exact hatom.Va
  · rw [hVb]
    exact hatom.Vb
  · rw [hVc]
    exact hatom.Vc
  · rw [hVd]
    exact hatom.Vd
  · rw [hVa, hVb, hVc, hVd]
    exact hatom.sum

/-! ## A turn of the last loop -/

/-- The shift of an accepted window divides by it. -/
theorem averageCount_pow {cache : Cache} (h : SpikesValid cache) (hpos : 0 < averageCount cache) :
    ∃ s < 5, averageCount cache = 2 ^ s ∧ (countShifts 64 (cache.sr .averageWindow)).2 = s := by
  rcases averageWindow_cases h.averageWindow with ⟨hzero, -⟩ | ⟨s, hs, hwindow, hshifts⟩
  · rw [averageCount, hzero] at hpos
    exact absurd hpos (by decide)
  · refine ⟨s, hs, ?_, by rw [hshifts]⟩
    rw [averageCount, hwindow]
    exact_mod_cast Int.toNat_natCast (2 ^ s)

section Turn

variable {b : Build} {cache : Cache} {out count eb period n e : ℕ}

/-- The first atom of an average, from its turn. -/
def averageFirst (cache : Cache) (e period k : ℕ) : ℕ := e - firstEdge cache + k * period

section

variable (h : Found cache count eb period n e) {k : ℕ} (hk : Reached cache count period e k)
  (hhold : (turnAt cache e period k).holdstart < count)
include h hk hhold

theorem Found.average_lt (hpos : 0 < averageCount cache) {fuel : ℕ} {m : Memory} {sums : Sums}
    (hsums : accumulate b out count fuel (turnAt cache e period k) m = .ok sums) :
    averageFirst cache e period k < count := by
  have hspace := h.space
  have hle := h.average_le
  have hperiod : k * period < count := by
    rw [h.holdstart_eq hk] at hhold
    omega
  have hfirst := h.avestart_eq hperiod
  have hstop := h.avestop_eq hperiod hpos
  have hin := (accumulate_inside hsums (by omega)).1 (by omega)
  rw [hfirst] at hin
  exact hin

/-- The atom of the values that a turn accumulates is that of the first atom of its average. -/
theorem Found.average_held (hcoef : CoefficientsValid cache) (hpos : 0 < averageCount cache)
    {fuel : ℕ} {m : Memory} (hsounds : (atoms m out (averageFirst cache e period k)).Sounds)
    {sums : Sums} (hsums : accumulate b out count fuel (turnAt cache e period k) m = .ok sums) :
    ∃ held, repositioned b cache (atoms m out (averageFirst cache e period k)) = .ok held ∧
      held.Sounds ∧
      averageAtom b cache (countShifts 64 (cache.sr .averageWindow)).2 sums = .ok held := by
  have hspace := h.space
  have hle := h.average_le
  have hperiod : k * period < count := by
    rw [h.holdstart_eq hk] at hhold
    omega
  obtain ⟨s, hs, hcount, hshifts⟩ := averageCount_pow h.valid hpos
  obtain ⟨-, hwindow⟩ := averageWindow_range h.valid.averageWindow
  have hcast := averageCount_cast h.valid
  have hfirst := h.avestart_eq hperiod
  have hstop := h.avestop_eq hperiod hpos
  have hvalue := accumulate_repeated hpos (by omega) (hstop.trans (by rw [hfirst])) (by omega) hsums
  obtain ⟨held, hheld, hheld', haverage⟩ := averageAtom_repeated b hcoef hs hsounds
  refine ⟨held, hheld, hheld', ?_⟩
  rw [hvalue, hfirst, hcount, hshifts]
  exact haverage

/-- **A turn holds the first atom of its average.** -/
theorem Found.turn_held (hcoef : CoefficientsValid cache) (hpos : 0 < averageCount cache)
    {fuel : ℕ} {m m' : Memory}
    (hsounds : averageFirst cache e period k < count →
      (atoms m out (averageFirst cache e period k)).Sounds)
    (hturn : holdTurn b cache out count (countShifts 64 (cache.sr .averageWindow)).2 fuel
      (turnAt cache e period k) m = .ok m') :
    ∃ held, repositioned b cache (atoms m out (averageFirst cache e period k)) = .ok held ∧
      held.Sounds ∧ ∀ j, atoms m' out j =
        if (turnAt cache e period k).holdstart ≤ j ∧
            j ≤ max (turnAt cache e period k).holdstart (lastHeld count (turnAt cache e period k))
          then held else atoms m out j := by
  have hspace := h.space
  obtain ⟨sums, atom, hsums, hatom, hatoms⟩ := holdTurn_atoms (by omega) hhold hturn
  obtain ⟨held, hheld, hheld', haverage⟩ := h.average_held hk hhold hcoef hpos
    (hsounds (h.average_lt hk hhold hpos hsums)) hsums
  rw [haverage] at hatom
  rw [← Except.ok.inj hatom] at hatoms
  exact ⟨held, hheld, hheld', hatoms⟩

end

end Turn

/-! ## The means -/

/-- The first index of average `k`, which may be outside of the buffer. -/
def averageBegin (cache : Cache) (eb period k : ℕ) : ℤ := eb + averageOffset cache + k * period

/-- The index is in average `k`. -/
def InAverage (cache : Cache) (eb period k i : ℕ) : Prop :=
  averageBegin cache eb period k ≤ i ∧ i < averageBegin cache eb period k + averageCount cache

/-- There are atoms to average, all of them in the buffer, and no interval overlaps a hold interval
before it. -/
structure IntervalsApart (cache : Cache) (count eb period : ℕ) : Prop where
  average : 0 < averageCount cache
  inside : ∀ k, holdBegin cache eb period k < count → 0 ≤ averageBegin cache eb period k ∧
    averageBegin cache eb period k + averageCount cache ≤ count
  apart : ∀ j k i, j < k → holdBegin cache eb period k < count → InHold cache eb period j i →
    ¬InHold cache eb period k i ∧ ¬InAverage cache eb period k i

/-- The mean of an amplitude over `w` atoms, rounded down. -/
def meanOf (f : Atom → Word) (m : Memory) (out first w : ℕ) : ℤ :=
  (∑ j ∈ Finset.range w, (f (atoms m out (first + j))).toInt) / w

/-- The position formulas for the means of the four amplitudes. -/
def meanAtom (b : Build) (cache : Cache) (m : Memory) (out first w : ℕ) : Except Fault Atom :=
  positions b cache (meanOf Atom.Va m out first w) (meanOf Atom.Vb m out first w)
    (meanOf Atom.Vc m out first w) (meanOf Atom.Vd m out first w)

/-- Every atom in a hold interval is that of the means over the average of its period. -/
def HoldsMeans (b : Build) (cache : Cache) (out count eb period : ℕ) (plain m : Memory) : Prop :=
  ∀ k i, i < count → InHold cache eb period k i →
    meanAtom b cache plain out (averageBegin cache eb period k).toNat (averageCount cache) =
      .ok (atoms m out i)

/-- The means over every average are the amplitudes of its first atom. -/
def MeansAtFirst (cache : Cache) (out count eb period : ℕ) (plain : Memory) : Prop :=
  ∀ k, holdBegin cache eb period k < count → ∀ f ∈ [Atom.Va, Atom.Vb, Atom.Vc, Atom.Vd],
    meanOf f plain out (averageBegin cache eb period k).toNat (averageCount cache) =
      (f (atoms plain out (averageBegin cache eb period k).toNat)).toInt

section Means

variable {b : Build} {cache : Cache} {out count eb period : ℕ}
variable (h : Found cache count eb period 0 eb) (hoffset : averageOffset cache ≤ 0)
  (hbegin : 0 ≤ holdBegin cache eb period 0)
include h hoffset

theorem averageFirst_eq (k : ℕ) :
    (averageFirst cache eb period k : ℤ) = averageBegin cache eb period k := by
  have hzero := h.average_eq
  have hle := h.first_le
  have hbound := h.edge_lt
  obtain ⟨hstart, hstart'⟩ := int5_range h.valid.start
  obtain ⟨hstop, hstop'⟩ := int5_range h.valid.averagingStop
  obtain ⟨hwindow, hwindow'⟩ := averageWindow_range h.valid.averageWindow
  have hfirst : (firstEdge cache : ℤ) = -averageOffset cache := by
    rw [averageOffset] at hoffset
    rw [firstEdge, averageOffset, size]
    omega
  rw [averageFirst, averageBegin]
  push_cast [hle]
  omega

omit hoffset in
include hbegin in
theorem holdstart_eq_holdBegin {k : ℕ} (hk : Reached cache count period eb k) :
    ((turnAt cache eb period k).holdstart : ℤ) = holdBegin cache eb period k := by
  have hspace := h.space
  have hlt := h.begin_lt
  obtain ⟨hstart, hstart'⟩ := int5_range h.valid.start
  rw [holdBegin] at hbegin
  rw [h.holdstart_eq hk, holdBegin, size]
  push_cast at hbegin ⊢
  omega

omit h hoffset in
/-- How far the last loop has come: the atoms outside of the first `k` hold intervals are as they
were, and those inside hold the first atom of their average. -/
structure Progress (b : Build) (cache : Cache) (out count eb period : ℕ) (m : Memory) (k : ℕ)
    (s : Turn × Memory) : Prop where
  turn : s.1 = turnAt cache eb period k
  reached : Reached cache count period eb k
  untouched : ∀ i < count, (∀ j < k, ¬InHold cache eb period j i) →
    atoms s.2 out i = atoms m out i
  held : ∀ j < k, ∀ i < count, InHold cache eb period j i →
    repositioned b cache (atoms m out (averageBegin cache eb period j).toNat) =
      .ok (atoms s.2 out i)

include hbegin

theorem Progress.step (hcoef : CoefficientsValid cache)
    (hapart : IntervalsApart cache count eb period) (hwindow : 0 < holdCount cache) {fuel k : ℕ}
    {m : Memory} (hsounds : ∀ i < count, (atoms m out i).Sounds) {s s' : Turn × Memory}
    (hs : Progress b cache out count eb period m k s) (hguard : s.1.holdstart < count)
    (hs' : holdStep b cache out count (countShifts 64 (cache.sr .averageWindow)).2 period fuel s =
      .ok s') : Progress b cache out count eb period m (k + 1) s' := by
  obtain ⟨t, m₁⟩ := s
  obtain ⟨rfl, hk, huntouched, hheld⟩ := hs
  obtain ⟨hnext, hreached, -⟩ := holdStep_next h hk hguard hs'
  obtain ⟨m₂, hturn, hs'⟩ := bind_ok.1 hs'
  cases hs'
  have hholdstart := holdstart_eq_holdBegin h hbegin hk
  have hbegin' : holdBegin cache eb period k < count := by
    rw [← hholdstart]
    exact_mod_cast hguard
  obtain ⟨hinside, hinside'⟩ := hapart.inside k hbegin'
  have hpos := hapart.average
  have hfirst := averageFirst_eq h hoffset k
  have hlt : averageFirst cache eb period k < count := by omega
  -- the first atom of the average is in no hold interval before
  have hatom : atoms m₁ out (averageFirst cache eb period k) =
      atoms m out (averageFirst cache eb period k) := by
    refine huntouched _ hlt fun j hj hhold => (hapart.apart j k _ hj hbegin' hhold).2 ?_
    rw [InAverage, hfirst]
    omega
  obtain ⟨held, hrepositioned, -, hatoms⟩ := h.turn_held hk hguard hcoef hpos
    (fun _ => by rw [hatom]; exact hsounds _ hlt) hturn
  have hwritten : ∀ i < count, (((turnAt cache eb period k).holdstart ≤ i ∧
      i ≤ max (turnAt cache eb period k).holdstart (lastHeld count (turnAt cache eb period k))) ↔
        InHold cache eb period k i) := by
    intro i hi
    rw [h.written_iff hguard hwindow, InHold, ← hholdstart]
    omega
  refine ⟨hnext, hreached, fun i hi hout => ?_, fun j hj i hi hhold => ?_⟩
  · rw [hatoms, if_neg fun hin => hout k k.lt_succ_self ((hwritten i hi).1 hin)]
    exact huntouched i hi fun j hj => hout j (by omega)
  · rcases Nat.lt_succ_iff_lt_or_eq.1 hj with hlt' | rfl
    · have hother := (hapart.apart j k i hlt' hbegin' hhold).1
      rw [hatoms, if_neg fun hin => hother ((hwritten i hi).1 hin)]
      exact hheld j hlt' i hi hhold
    · rw [hatoms, if_pos ((hwritten i hi).2 hhold), ← hfirst, Int.toNat_natCast, ← hatom]
      exact hrepositioned

/-- **Every hold interval holds the first atom of its average.** -/
theorem holdLoop_first (hcoef : CoefficientsValid cache)
    (hapart : IntervalsApart cache count eb period) (hwindow : 0 < holdCount cache)
    {fuel turns : ℕ} {m : Memory} {s' : Turn × Memory}
    (hsounds : ∀ i < count, (atoms m out i).Sounds)
    (hok : holdLoop b cache out count (countShifts 64 (cache.sr .averageWindow)).2 period fuel turns
      (Turn.start cache eb, m) = .ok s') {k i : ℕ} (hi : i < count)
    (hhold : InHold cache eb period k i) :
    repositioned b cache (atoms m out (averageBegin cache eb period k).toNat) =
      .ok (atoms s'.2 out i) := by
  have hstart : ∃ k, Progress b cache out count eb period m k (Turn.start cache eb, m) :=
    ⟨0, start_eq cache eb period, fun j hj => absurd hj j.not_lt_zero, fun _ _ _ => rfl,
      fun j hj => absurd hj j.not_lt_zero⟩
  have hstep : ∀ s s' : Turn × Memory, (∃ k, Progress b cache out count eb period m k s) →
      decide (s.1.holdstart < count) = true →
      holdStep b cache out count (countShifts 64 (cache.sr .averageWindow)).2 period fuel s =
        .ok s' → ∃ k, Progress b cache out count eb period m k s' := by
    rintro s s' ⟨k, hs⟩ hguard hs'
    exact ⟨k + 1, hs.step h hoffset hbegin hcoef hapart hwindow hsounds (of_decide_eq_true hguard)
      hs'⟩
  obtain ⟨⟨last, hlast⟩, hguard⟩ := loop_invariant hstep hstart hok
  refine hlast.held k ?_ i hi hhold
  -- the loop has ended behind the interval
  have hend := of_decide_eq_false hguard
  have hholdstart := holdstart_eq_holdBegin h hbegin hlast.reached
  rw [hlast.turn] at hend
  by_contra hle
  have hmono := Nat.mul_le_mul_right period (not_lt.1 hle)
  rw [InHold, holdBegin] at hhold
  rw [holdBegin] at hholdstart
  have hcast : ((last * period : ℕ) : ℤ) ≤ (k * period : ℕ) := by exact_mod_cast hmono
  push_cast at hcast
  omega

end Means

/-! ## The amplitudes of the strict build -/

theorem isInt_half (w : Word) :
    -2 ^ 30 ≤ w.toInt >>> (1 : ℕ) ∧ w.toInt >>> (1 : ℕ) < 2 ^ 30 := by
  obtain ⟨hlow, hhigh⟩ := isInt_toInt w
  rw [shiftRight_eq]
  omega

theorem isInt_half' (w : Word) : IsInt (w.toInt >>> (1 : ℕ)) := by
  obtain ⟨hlow, hhigh⟩ := isInt_half w
  exact ⟨by omega, by omega⟩

/-- The two components of a signal do not overflow. -/
def SignalFits (sin cos : Word) : Prop := Fits (sin.toInt >>> (1 : ℕ)) (cos.toInt >>> (1 : ℕ))

theorem signalAmp_ok (g : Bool) (sin cos : Word) {V : ℤ} :
    signalAmp (.strict g) sin cos = .ok V ↔
      SignalFits sin cos ∧ V = amplitude g (sin.toInt >>> (1 : ℕ)) (cos.toInt >>> (1 : ℕ)) :=
  cordicAmp_ok g (isInt_half' sin) (isInt_half' cos)

theorem isAmplitude_of_fits (g : Bool) {I Q : ℤ} (h : Fits I Q) :
    IsAmplitude (amplitude g I Q) := by
  have hlast := h.2 cordicMaxlevel cordicMaxlevel.lt_succ_self
  have hle := corrected_le g (fst_nonneg (folded_fst_nonneg I Q) (cordicMaxlevel + 1))
  exact ⟨amplitude_nonneg g I Q, hle.trans_lt hlast.1.2⟩

/-- No amplitude of the raw atom overflows. -/
def RawAtom.Fits (raw : RawAtom) : Prop :=
  SignalFits raw.sinVa raw.cosVa ∧ SignalFits raw.sinVb raw.cosVb ∧
    SignalFits raw.sinVc raw.cosVc ∧ SignalFits raw.sinVd raw.cosVd

/-- The signal has no amplitude. -/
def SignalSilent (ignoreGain : Bool) (sin cos : Word) : Prop :=
  Silent ignoreGain (sin.toInt >>> (1 : ℕ)) (cos.toInt >>> (1 : ℕ))

/-- All four signals of the raw atom are silent. -/
def RawAtom.Silent (ignoreGain : Bool) (raw : RawAtom) : Prop :=
  SignalSilent ignoreGain raw.sinVa raw.cosVa ∧ SignalSilent ignoreGain raw.sinVb raw.cosVb ∧
    SignalSilent ignoreGain raw.sinVc raw.cosVc ∧ SignalSilent ignoreGain raw.sinVd raw.cosVd

theorem positions_ok (g : Bool) {cache : Cache} {Va Vb Vc Vd : ℤ} {atom : Atom}
    (h : positions (.strict g) cache Va Vb Vc Vd = .ok atom) :
    Va + Vb + Vc + Vd ≠ 0 ∧ atom.Va = .ofInt 32 Va ∧ atom.Vb = .ofInt 32 Vb ∧
      atom.Vc = .ofInt 32 Vc ∧ atom.Vd = .ofInt 32 Vd := by
  obtain ⟨X, hX, h⟩ := bind_ok.1 h
  obtain ⟨_, -, hX⟩ := bind_ok.1 hX
  obtain ⟨_, hquotient, -⟩ := bind_ok.1 hX
  obtain ⟨_, -, h⟩ := bind_ok.1 h
  obtain ⟨_, -, h⟩ := bind_ok.1 h
  obtain ⟨_, -, h⟩ := bind_ok.1 h
  cases h
  refine ⟨fun hzero => ?_, rfl, rfl, rfl, rfl⟩
  rw [Build.div64, if_pos hzero] at hquotient
  cases hquotient

theorem transformAtom_sounds (g : Bool) {cache : Cache} {raw : RawAtom} {atom : Atom}
    (h : transformAtom (.strict g) cache raw = .ok atom) : atom.Sounds ∧ raw.Fits := by
  obtain ⟨Va, hVa, h⟩ := bind_ok.1 h
  obtain ⟨Vb, hVb, h⟩ := bind_ok.1 h
  obtain ⟨Vc, hVc, h⟩ := bind_ok.1 h
  obtain ⟨Vd, hVd, h⟩ := bind_ok.1 h
  obtain ⟨hsum, ha, hb, hc, hd⟩ := positions_ok g h
  obtain ⟨hfa, rfl⟩ := (signalAmp_ok g _ _).1 hVa
  obtain ⟨hfb, rfl⟩ := (signalAmp_ok g _ _).1 hVb
  obtain ⟨hfc, rfl⟩ := (signalAmp_ok g _ _).1 hVc
  obtain ⟨hfd, rfl⟩ := (signalAmp_ok g _ _).1 hVd
  have hword : ∀ {w : Word} {I Q : ℤ}, Fits I Q → w = .ofInt 32 (amplitude g I Q) →
      w.toInt = amplitude g I Q := by
    intro w I Q hfits hw
    obtain ⟨hlow, hhigh⟩ := isAmplitude_of_fits g hfits
    rw [hw]
    exact toInt_ofInt ⟨by omega, hhigh⟩
  refine ⟨?_, hfa, hfb, hfc, hfd⟩
  have hamplitudes := And.intro (isAmplitude_of_fits g hfa) (And.intro (isAmplitude_of_fits g hfb)
    (And.intro (isAmplitude_of_fits g hfc) (isAmplitude_of_fits g hfd)))
  rw [← hword hfa ha, ← hword hfb hb, ← hword hfc hc, ← hword hfd hd] at hamplitudes hsum
  obtain ⟨⟨hVa, _⟩, ⟨hVb, _⟩, ⟨hVc, _⟩, ⟨hVd, _⟩⟩ := hamplitudes
  exact ⟨⟨hVa, ‹_›⟩, ⟨hVb, ‹_›⟩, ⟨hVc, ‹_›⟩, ⟨hVd, ‹_›⟩, by omega⟩

/-- The components of a raw atom. -/
def RawAtom.components (raw : RawAtom) : List Word :=
  [raw.cosVa, raw.sinVa, raw.cosVb, raw.sinVb, raw.cosVc, raw.sinVc, raw.cosVd, raw.sinVd]

theorem RawAtom.silent_true_iff {raw : RawAtom} :
    raw.Silent true ↔ ∀ x ∈ raw.components, x.toInt >>> (1 : ℕ) = 0 := by
  simp only [RawAtom.Silent, SignalSilent, Transform.silent_true_iff, RawAtom.components,
    List.forall_mem_cons, List.not_mem_nil, false_imp_iff, implies_true, and_true]
  tauto

/-- **The sum of the amplitudes.** In the build that ignores the gain an amplitude that does not
overflow is at least `|I| + |Q|`, and zero for the pair `(0, 0)` alone. The sum `S` of the four that
`ebpp_transform_dd_single` divides by is not negative, and zero when all eight components are zero
after the shift. -/
theorem cordicAmp_lower_bound :
    (∀ I Q, IsInt I → IsInt Q → Fits I Q → ∃ R, cordicAmp (.strict true) I Q = .ok R ∧
      |I| + |Q| ≤ R ∧ (R = 0 ↔ I = 0 ∧ Q = 0)) ∧
    ∀ cache m p q, Placed 8 p q → (rawAt m p).Fits → ∃ Va Vb Vc Vd,
      signalAmp (.strict true) (rawAt m p).sinVa (rawAt m p).cosVa = .ok Va ∧
      signalAmp (.strict true) (rawAt m p).sinVb (rawAt m p).cosVb = .ok Vb ∧
      signalAmp (.strict true) (rawAt m p).sinVc (rawAt m p).cosVc = .ok Vc ∧
      signalAmp (.strict true) (rawAt m p).sinVd (rawAt m p).cosVd = .ok Vd ∧
      ebppTransformDdSingle (.strict true) cache p q m =
        (positions (.strict true) cache Va Vb Vc Vd).map (putAtom m q) ∧
      0 ≤ Va + Vb + Vc + Vd ∧
      (Va + Vb + Vc + Vd = 0 ↔ ∀ x ∈ (rawAt m p).components, x.toInt >>> (1 : ℕ) = 0) := by
  refine ⟨fun I Q hI hQ hfits => ?_, fun cache m p q hplaced hfits => ?_⟩
  · exact ⟨_, cordicAmp_of_fits true hI hQ hfits, add_abs_le_amplitude I Q,
      (amplitude_eq_zero_iff true I Q).trans silent_true_iff⟩
  · obtain ⟨ha, hb, hc, hd⟩ := hfits
    have hVa := (signalAmp_ok true _ _).2 ⟨ha, rfl⟩
    have hVb := (signalAmp_ok true _ _).2 ⟨hb, rfl⟩
    have hVc := (signalAmp_ok true _ _).2 ⟨hc, rfl⟩
    have hVd := (signalAmp_ok true _ _).2 ⟨hd, rfl⟩
    have hnonneg := fun sin cos : Word =>
      amplitude_nonneg true (sin.toInt >>> (1 : ℕ)) (cos.toInt >>> (1 : ℕ))
    have hna := hnonneg (rawAt m p).sinVa (rawAt m p).cosVa
    have hnb := hnonneg (rawAt m p).sinVb (rawAt m p).cosVb
    have hnc := hnonneg (rawAt m p).sinVc (rawAt m p).cosVc
    have hnd := hnonneg (rawAt m p).sinVd (rawAt m p).cosVd
    refine ⟨_, _, _, _, hVa, hVb, hVc, hVd, ?_, by omega, ?_⟩
    · rw [ebppTransformDdSingle_eq _ cache m hplaced, transformAtom, hVa, hVb, hVc, hVd]
      rfl
    · rw [← RawAtom.silent_true_iff]
      simp only [RawAtom.Silent, SignalSilent, ← amplitude_eq_zero_iff]
      omega

theorem Atom.Sounds.amplitude {atom : Atom} (h : atom.Sounds) {f : Atom → Word}
    (hf : f ∈ [Atom.Va, Atom.Vb, Atom.Vc, Atom.Vd]) : IsAmplitude (f atom).toInt := by
  simp only [List.mem_cons, List.not_mem_nil, or_false] at hf
  rcases hf with rfl | rfl | rfl | rfl
  · exact h.Va
  · exact h.Vb
  · exact h.Vc
  · exact h.Vd

/-- A mean of amplitudes is an amplitude. -/
theorem isAmplitude_meanOf {f : Atom → Word} {m : Memory} {out first w : ℕ} (hw : 0 < w)
    (h : ∀ j < w, IsAmplitude (f (atoms m out (first + j))).toInt) :
    IsAmplitude (meanOf f m out first w) := by
  have hlow : 0 ≤ ∑ j ∈ Finset.range w, (f (atoms m out (first + j))).toInt :=
    Finset.sum_nonneg fun j hj => (h j (Finset.mem_range.1 hj)).1
  have hhigh : ∑ j ∈ Finset.range w, (f (atoms m out (first + j))).toInt ≤ w * (2 ^ 31 - 1) := by
    have hcard := Finset.sum_le_card_nsmul (Finset.range w)
      (fun j => (f (atoms m out (first + j))).toInt) (2 ^ 31 - 1) fun j hj =>
        Int.le_sub_one_of_lt (h j (Finset.mem_range.1 hj)).2
    rwa [Finset.card_range, nsmul_eq_mul] at hcard
  have hw' : (0 : ℤ) < w := by exact_mod_cast hw
  constructor
  · exact Int.ediv_nonneg hlow hw'.le
  · have hle : meanOf f m out first w ≤ 2 ^ 31 - 1 :=
      Int.ediv_le_of_le_mul hw' (by rwa [mul_comm])
    omega

theorem ofInt_inj {x y : ℤ} (hx : IsInt x) (hy : IsInt y)
    (h : BitVec.ofInt 32 x = BitVec.ofInt 32 y) : x = y := by
  rw [← toInt_ofInt hx, ← toInt_ofInt hy, h]

/-- The averages end at their edge or before it, and the first hold interval does not begin before
the buffer. -/
structure StartsInside (cache : Cache) (eb period : ℕ) : Prop where
  offset : averageOffset cache ≤ 0
  begins : 0 ≤ holdBegin cache eb period 0

/-- Where the first average begins inside the buffer, the search stays at the first edge. -/
theorem finds_zero {eb period n : ℕ} (hcache : SpikesValid cache) (heb : eb < 2 ^ 27)
    (hoffset : averageOffset cache ≤ 0) (hinside : 0 ≤ averageBegin cache eb period 0)
    (hfinds : Finds cache eb period n) : n = 0 := by
  rcases n with _ | n
  · rfl
  · have hbefore := hfinds.1 0 n.succ_pos
    obtain ⟨hstart, hstart'⟩ := int5_range hcache.start
    obtain ⟨hstop, hstop'⟩ := int5_range hcache.averagingStop
    obtain ⟨hwindow, hwindow'⟩ := averageWindow_range hcache.averageWindow
    rw [averageBegin, averageOffset] at hinside
    rw [averageOffset] at hoffset
    rw [firstEdge, averageOffset, size, size] at hbefore
    push_cast at hinside hbefore
    omega

/-- Hold intervals begin one after the other. -/
theorem holdBegin_zero_le {cache : Cache} {eb period : ℕ} (k : ℕ) :
    holdBegin cache eb period 0 ≤ holdBegin cache eb period k := by
  have hk : (0 : ℤ) ≤ k * period := by positivity
  rw [holdBegin, holdBegin]
  push_cast
  omega

/-- Two atoms of the position formulas that are the same come from the same amplitudes. -/
theorem meanOf_eq_of_positions {g : Bool} {cache : Cache} {plain : Memory} {out first w : ℕ}
    {atom held : Atom}
    (hint : ∀ f ∈ [Atom.Va, Atom.Vb, Atom.Vc, Atom.Vd], IsInt (meanOf f plain out first w))
    (hmean : meanAtom (.strict g) cache plain out first w = .ok held)
    (hfirst : repositioned (.strict g) cache atom = .ok held) :
    ∀ f ∈ [Atom.Va, Atom.Vb, Atom.Vc, Atom.Vd], meanOf f plain out first w = (f atom).toInt := by
  obtain ⟨-, hma, hmb, hmc, hmd⟩ := positions_ok g hmean
  obtain ⟨-, hfa, hfb, hfc, hfd⟩ := positions_ok g hfirst
  intro f hf
  have hmeanInt := hint f hf
  simp only [List.mem_cons, List.not_mem_nil, or_false] at hf
  rcases hf with rfl | rfl | rfl | rfl
  · exact ofInt_inj hmeanInt (isInt_toInt _) (hma.symm.trans hfa)
  · exact ofInt_inj hmeanInt (isInt_toInt _) (hmb.symm.trans hfb)
  · exact ofInt_inj hmeanInt (isInt_toInt _) (hmc.symm.trans hfc)
  · exact ofInt_inj hmeanInt (isInt_toInt _) (hmd.symm.trans hfd)

/-- Where every held atom comes from the first atom of its average, the held atoms are those of the
means if and only if the means are what these first atoms have. -/
theorem holdsMeans_iff {g : Bool} {cache : Cache} {plain m' : Memory} {out count eb period : ℕ}
    (hapart : IntervalsApart cache count eb period) (hbegins : 0 ≤ holdBegin cache eb period 0)
    (hwindow : 0 < holdCount cache) (hsounds : ∀ i < count, (atoms plain out i).Sounds)
    (hheld : ∀ k i, i < count → InHold cache eb period k i →
      repositioned (.strict g) cache (atoms plain out (averageBegin cache eb period k).toNat) =
        .ok (atoms m' out i)) :
    HoldsMeans (.strict g) cache out count eb period plain m' ↔
      MeansAtFirst cache out count eb period plain := by
  constructor
  · intro hmeans k hk
    obtain ⟨hfirst, hlast⟩ := hapart.inside k hk
    obtain ⟨i, hi⟩ := Int.eq_ofNat_of_zero_le (hbegins.trans (holdBegin_zero_le k))
    have hin : InHold cache eb period k i := ⟨hi.le, by omega⟩
    have hmean : ∀ f ∈ [Atom.Va, Atom.Vb, Atom.Vc, Atom.Vd], IsInt (meanOf f plain out
        (averageBegin cache eb period k).toNat (averageCount cache)) := by
      intro f hf
      obtain ⟨hlow, hhigh⟩ := isAmplitude_meanOf hapart.average fun j hj =>
        (hsounds ((averageBegin cache eb period k).toNat + j) (by omega)).amplitude hf
      exact ⟨by omega, hhigh⟩
    exact meanOf_eq_of_positions hmean (hmeans k i (by omega) hin) (hheld k i (by omega) hin)
  · intro hmeans k i hi hhold
    have hk : holdBegin cache eb period k < count := by
      have hin := hhold.1
      omega
    have hchannel := hmeans k hk
    rw [meanAtom, hchannel Atom.Va (by simp), hchannel Atom.Vb (by simp),
      hchannel Atom.Vc (by simp), hchannel Atom.Vd (by simp)]
    exact hheld k i hi hhold

section Strict

variable {g : Bool} {cache : Cache} {inp out count : ℕ} (hplaced : Placed (8 * count) inp out)
include hplaced

/-- The atoms of a buffer that the strict build has transformed. -/
theorem plain_sounds {m plain : Memory}
    (h : transformFrom (.strict g) cache inp out 0 count m = .ok plain) {i : ℕ} (hi : i < count) :
    (atoms plain out i).Sounds :=
  (transformAtom_sounds g (transformFrom_atoms hplaced (by omega) h i.zero_le (by omega))).1

/-- **The held atoms are the means where the first amplitudes are.** The configuration is an
accepted one, there are atoms to average, the averages lie in the buffer and overlap no hold
interval before them, and the transform returns `0`. If moreover the averages end at their edge or
before it and the first hold interval does not begin before the buffer, every atom in a hold
interval is that of the means over the average of its period if and only if the intervals are empty
or every mean is the amplitude of the first atom of its average. -/
theorem removeSpikes_means_iff (hcache : SpikesValid cache) (hcoef : CoefficientsValid cache)
    (hspace : 32 * count ≤ 2 ^ 32) {m m' plain : Memory} {fuel : ℕ}
    (hrun : ebppTransformDdRemoveSpikes (.strict g) cache inp out count fuel m = .ok (0, m'))
    (hplain : ebppTransformDd (.strict g) cache inp out count m = .ok (0, plain))
    (hapart : IntervalsApart cache count (edgeBegin m inp count)
      (edgeEnd m inp count - edgeBegin m inp count))
    (hinside : StartsInside cache (edgeBegin m inp count)
      (edgeEnd m inp count - edgeBegin m inp count)) :
    HoldsMeans (.strict g) cache out count (edgeBegin m inp count)
        (edgeEnd m inp count - edgeBegin m inp count) plain m' ↔
      holdCount cache = 0 ∨ MeansAtFirst cache out count (edgeBegin m inp count)
        (edgeEnd m inp count - edgeBegin m inp count) plain := by
  obtain ⟨plain', hplain', hsame⟩ := bind_ok.1 hplain
  cases hsame
  obtain ⟨plain', htransform, ⟨hne, -⟩ | ⟨-, hcount, hend, n, turn, hfinds, hloop⟩⟩ :=
    run_cases hcache hplaced hspace hrun
  · exact absurd rfl hne
  obtain rfl : plain = plain' := Except.ok.inj (hplain'.symm.trans htransform)
  obtain ⟨-, hle, -⟩ := edges_bounds m inp hcount
  have hsounds : ∀ i < count, (atoms plain out i).Sounds := fun i hi =>
    plain_sounds hplaced hplain' hi
  generalize hperiod : edgeEnd m inp count - edgeBegin m inp count = period at *
  have hfound := found_of_finds hcache hspace hcount hend (hperiod ▸ hfinds)
  rw [hperiod] at hfound
  generalize edgeBegin m inp count = eb at *
  by_cases hbuffer : holdBegin cache eb period 0 < count
  · have hzero := finds_zero hcache (by omega) hinside.offset (hapart.inside 0 hbuffer).1 hfinds
    subst n
    have hedge : size (eb + (0 : ℕ) * period) = eb := size_eq (by push_cast; ring) (by omega)
    rw [hedge] at hfound hloop
    rcases Nat.eq_zero_or_pos (holdCount cache) with hempty | hwindow
    · refine iff_of_true (fun k i _ hhold => ?_) (.inl hempty)
      rw [InHold, hempty] at hhold
      omega
    have hheld : ∀ k i, i < count → InHold cache eb period k i →
        repositioned (.strict g) cache (atoms plain out (averageBegin cache eb period k).toNat) =
          .ok (atoms m' out i) := fun k i hi hhold =>
      holdLoop_first hfound hinside.offset hinside.begins hcoef hapart hwindow hsounds hloop hi
        hhold
    have hmeans := holdsMeans_iff hapart hinside.begins hwindow hsounds hheld
    rw [hmeans, or_iff_right hwindow.ne']
  · -- no hold interval begins inside the buffer
    have hlate : ∀ k, (count : ℤ) ≤ holdBegin cache eb period k := fun k =>
      (not_lt.1 hbuffer).trans (holdBegin_zero_le k)
    constructor
    · intro _
      exact .inr fun k hk => absurd hk (not_lt.2 (hlate k))
    · intro _ k i hi hhold
      have hk := hlate k
      have hin := hhold.1
      omega

end Strict

/-- Averages of two atoms, the second one before the edge, and intervals of one atom. -/
theorem intervalsApart_six : IntervalsApart (spikesCache 0 (-1) 2 1) 6
    (edgeBegin (pulses [2, 3, 4]) 0 6)
    (edgeEnd (pulses [2, 3, 4]) 0 6 - edgeBegin (pulses [2, 3, 4]) 0 6) := by
  have hbegin : edgeBegin (pulses [2, 3, 4]) 0 6 = 2 := by decide
  have hend : edgeEnd (pulses [2, 3, 4]) 0 6 = 5 := by decide
  have hstart : ((spikesCache 0 (-1) 2 1).sr .start).toInt = 0 := by decide
  have hoffset : averageOffset (spikesCache 0 (-1) 2 1) = -2 := by decide
  have haverage : averageCount (spikesCache 0 (-1) 2 1) = 2 := by decide
  have hhold : holdCount (spikesCache 0 (-1) 2 1) = 1 := by decide
  rw [hbegin, hend]
  constructor
  · rw [haverage]
    decide
  · intro k hk
    rw [holdBegin, hstart] at hk
    rw [averageBegin, hoffset, haverage]
    omega
  · intro j k i hjk hk hin
    rw [InHold, holdBegin, hstart, hhold] at hin
    rw [InHold, holdBegin, hstart, hhold, InAverage, averageBegin, hoffset, haverage]
    omega

theorem removeSpikes_means_iff_six : ∃ m' plain,
    ebppTransformDdRemoveSpikes (.strict true) (spikesCache 0 (-1) 2 1) 0 0 6 9
        (pulses [2, 3, 4]) = .ok (0, m') ∧
      ebppTransformDd (.strict true) (spikesCache 0 (-1) 2 1) 0 0 6 (pulses [2, 3, 4]) =
        .ok (0, plain) ∧
      (HoldsMeans (.strict true) (spikesCache 0 (-1) 2 1) 0 6 (edgeBegin (pulses [2, 3, 4]) 0 6)
          (edgeEnd (pulses [2, 3, 4]) 0 6 - edgeBegin (pulses [2, 3, 4]) 0 6) plain m' ↔
        holdCount (spikesCache 0 (-1) 2 1) = 0 ∨
          MeansAtFirst (spikesCache 0 (-1) 2 1) 0 6 (edgeBegin (pulses [2, 3, 4]) 0 6)
            (edgeEnd (pulses [2, 3, 4]) 0 6 - edgeBegin (pulses [2, 3, 4]) 0 6) plain) := by
  have hheld : (ebppTransformDdRemoveSpikes (.strict true) (spikesCache 0 (-1) 2 1) 0 0 6 9
      (pulses [2, 3, 4])).map Prod.fst = .ok 0 := by decide +kernel
  have hplain : (ebppTransformDd (.strict true) (spikesCache 0 (-1) 2 1) 0 0 6
      (pulses [2, 3, 4])).map Prod.fst = .ok 0 := by decide +kernel
  obtain ⟨⟨r, m'⟩, hrun, hzero⟩ := map_ok.1 hheld
  obtain ⟨⟨r', plain⟩, hrun', hzero'⟩ := map_ok.1 hplain
  cases hzero
  cases hzero'
  exact ⟨m', plain, hrun, hrun', removeSpikes_means_iff (.inl rfl)
    ⟨by decide, by decide, by decide, by decide⟩
    ⟨by decide, by decide, by decide, by decide, by decide⟩ (by decide) hrun hrun'
    intervalsApart_six ⟨by decide, by decide⟩⟩

/-- The first held atom has the amplitude of the first atom, not the mean of two. -/
theorem mean_not_held : ∃ m' plain,
    ebppTransformDdRemoveSpikes (.strict true) (spikesCache 0 (-1) 2 1) 0 0 6 9
        (pulses [2, 3, 4]) = .ok (0, m') ∧
      ebppTransformDd (.strict true) (spikesCache 0 (-1) 2 1) 0 0 6 (pulses [2, 3, 4]) =
        .ok (0, plain) ∧
      IntervalsApart (spikesCache 0 (-1) 2 1) 6 (edgeBegin (pulses [2, 3, 4]) 0 6)
        (edgeEnd (pulses [2, 3, 4]) 0 6 - edgeBegin (pulses [2, 3, 4]) 0 6) ∧
      ¬HoldsMeans (.strict true) (spikesCache 0 (-1) 2 1) 0 6 (edgeBegin (pulses [2, 3, 4]) 0 6)
        (edgeEnd (pulses [2, 3, 4]) 0 6 - edgeBegin (pulses [2, 3, 4]) 0 6) plain m' := by
  have hheld : (ebppTransformDdRemoveSpikes (.strict true) (spikesCache 0 (-1) 2 1) 0 0 6 9
      (pulses [2, 3, 4])).map (fun r => (r.1, (atoms r.2 0 2).Va)) = .ok (0, 1649) := by
    decide +kernel
  have hplain : (ebppTransformDd (.strict true) (spikesCache 0 (-1) 2 1) 0 0 6
      (pulses [2, 3, 4])).map (fun r => (r.1, (atoms r.2 0 0).Va, (atoms r.2 0 1).Va)) =
        .ok (0, 1649, 3297) := by decide +kernel
  obtain ⟨⟨r, m'⟩, hrun, hvalue⟩ := map_ok.1 hheld
  obtain ⟨⟨r', plain⟩, hrun', hvalue'⟩ := map_ok.1 hplain
  obtain ⟨rfl, hVa⟩ := Prod.mk.inj hvalue
  obtain ⟨rfl, hVa'⟩ := Prod.mk.inj hvalue'
  obtain ⟨hfirst, hsecond⟩ := Prod.mk.inj hVa'
  refine ⟨m', plain, hrun, hrun', intervalsApart_six, fun hmeans => ?_⟩
  have hin : InHold (spikesCache 0 (-1) 2 1) (edgeBegin (pulses [2, 3, 4]) 0 6)
      (edgeEnd (pulses [2, 3, 4]) 0 6 - edgeBegin (pulses [2, 3, 4]) 0 6) 0 2 := by
    rw [InHold]
    decide
  have hmean := (positions_ok true (hmeans 0 2 (by decide) hin)).2.1
  have haverage : (averageBegin (spikesCache 0 (-1) 2 1) (edgeBegin (pulses [2, 3, 4]) 0 6)
      (edgeEnd (pulses [2, 3, 4]) 0 6 - edgeBegin (pulses [2, 3, 4]) 0 6) 0).toNat = 0 := by decide
  have hcount : averageCount (spikesCache 0 (-1) 2 1) = 2 := by decide
  rw [haverage, hcount, meanOf, Finset.sum_range_succ, Finset.sum_range_one, Nat.zero_add,
    Nat.zero_add] at hmean
  dsimp only at hVa hfirst hsecond
  rw [hVa, hfirst, hsecond] at hmean
  exact absurd hmean (by decide)

end LiberaDaq.Transform
