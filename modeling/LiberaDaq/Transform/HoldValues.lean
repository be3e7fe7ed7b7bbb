import LiberaDaq.Transform.HoldTurns

/-!
# What the last loop writes

A turn of the last loop writes one atom over a range of indices and leaves the others as they are.
The ranges are the hold intervals when their window is not empty and the search for the first edge
has kept to the edges; then all other atoms are those of the plain transform.
-/

namespace LiberaDaq.Transform

open Cspi

/-- The atoms of a buffer. -/
def atoms (m : Memory) (out : ℕ) (i : ℕ) : Atom := atomAt m (out + 8 * i)

theorem atoms_putAtom (m : Memory) (out i : ℕ) (atom : Atom) (j : ℕ) :
    atoms (putAtom m (out + 8 * i) atom) out j = if j = i then atom else atoms m out j := by
  split
  · subst j
    exact atomAt_putAtom m _ atom
  · exact atomAt_congr fun c hc => putAtom_other m atom (by omega)

/-- The loop that copies writes one atom to its indices. -/
theorem copyAtoms_atoms {out count hs n i : ℕ} {m m' : Memory} (hhs : hs < i)
    (h : copyAtoms out count hs n i m = .ok m') (j : ℕ) :
    atoms m' out j = if i ≤ j ∧ j < i + n then atoms m out hs else atoms m out j := by
  induction n generalizing i m with
  | zero =>
    cases h
    rw [if_neg (by omega)]
  | succ n ih =>
    obtain ⟨-, -, h⟩ := bind_ok.1 h
    rw [ih (by omega) h, atoms_putAtom, atoms_putAtom, if_neg hhs.ne]
    change (if _ then atoms m out hs else if j = i then atoms m out hs else _) = _
    by_cases hij : j = i
    · subst j
      rw [if_neg (by omega), if_pos rfl, if_pos (by omega)]
    · rw [if_neg hij]
      exact if_congr (by omega) rfl rfl

section Turns

variable {b : Build} {cache : Cache} {out count : ℕ}

/-- A turn writes one atom from `holdstart` to the last atom that it holds. -/
theorem holdTurn_atoms {shifts fuel : ℕ} {t : Turn} {m m' : Memory} (hcount : count < 2 ^ 32)
    (ht : t.holdstart < count) (h : holdTurn b cache out count shifts fuel t m = .ok m') :
    ∃ sums atom, accumulate b out count fuel t m = .ok sums ∧
      averageAtom b cache shifts sums = .ok atom ∧
      ∀ j, atoms m' out j = if t.holdstart ≤ j ∧ j ≤ max t.holdstart (lastHeld count t) then atom
        else atoms m out j := by
  rw [holdTurn_eq b cache shifts fuel t m hcount ht] at h
  obtain ⟨sums, hsums, h⟩ := bind_ok.1 h
  obtain ⟨atom, hatom, h⟩ := bind_ok.1 h
  refine ⟨sums, atom, hsums, hatom, fun j => ?_⟩
  rw [copyAtoms_atoms t.holdstart.lt_succ_self h, atoms_putAtom, atoms_putAtom, if_pos rfl]
  by_cases hj : j = t.holdstart
  · rw [if_neg (by omega), if_pos hj, if_pos (by omega)]
  · rw [if_neg hj]
    exact if_congr (by omega) rfl rfl

theorem lastHeld_eq (t : Turn) (ht : t.holdstart < count) :
    lastHeld count t = min t.holdstop (count - 1) := by
  rw [lastHeld]
  split <;> omega

end Turns

/-! ## The hold intervals -/

/-- The first index of hold interval `k`, which may be outside of the buffer. -/
def holdBegin (cache : Cache) (eb period k : ℕ) : ℤ := eb + (cache.sr .start).toInt + k * period

/-- The number of atoms in a hold interval. -/
def holdCount (cache : Cache) : ℕ := (cache.sr .window).toInt.toNat

theorem holdCount_cast {cache : Cache} (h : SpikesValid cache) :
    (holdCount cache : ℤ) = (cache.sr .window).toInt :=
  Int.toNat_of_nonneg (uint7_range h.window).1

/-- The index is in hold interval `k`. -/
def InHold (cache : Cache) (eb period k i : ℕ) : Prop :=
  holdBegin cache eb period k ≤ i ∧ i < holdBegin cache eb period k + holdCount cache

section Intervals

variable {b : Build} {cache : Cache} {out count eb period n e : ℕ}
variable (h : Found cache count eb period n e)
include h

theorem Found.holdstop_eq {k : ℕ}
    (hhold : (turnAt cache e period k).holdstart < count) (hwindow : 0 < holdCount cache) :
    (turnAt cache e period k).holdstop =
      (turnAt cache e period k).holdstart + (holdCount cache - 1) := by
  have hspace := h.space
  have hcast := holdCount_cast h.valid
  obtain ⟨-, hwindow'⟩ := uint7_range h.valid.window
  have hstop : (turnAt cache e period k).holdstop =
      size ((turnAt cache e period k).holdstart + ((cache.sr .window).toInt - 1)) := by
    rw [turnAt, size_add]
    dsimp only
    congr 1
    ring
  rw [hstop]
  exact size_eq (by omega) (by omega)

/-- The atoms that a turn writes, when the window is not empty. -/
theorem Found.written_iff {k : ℕ}
    (hhold : (turnAt cache e period k).holdstart < count) (hwindow : 0 < holdCount cache) (j : ℕ) :
    ((turnAt cache e period k).holdstart ≤ j ∧
        j ≤ max (turnAt cache e period k).holdstart (lastHeld count (turnAt cache e period k))) ↔
      j < count ∧ (turnAt cache e period k).holdstart ≤ j ∧
        j < (turnAt cache e period k).holdstart + holdCount cache := by
  rw [lastHeld_eq _ hhold, h.holdstop_eq hhold hwindow]
  omega

end Intervals

section Edge

variable {cache : Cache} {count eb period n e : ℕ}

/-- An average that ends at an edge or before it lets the search keep to the edges. -/
theorem Found.edge_exact (h : Found cache count eb period n e) (hoffset : averageOffset cache ≤ 0) :
    e = eb + n * period ∧ e ≤ count + 94 := by
  obtain ⟨hstart, hstart'⟩ := int5_range h.valid.start
  obtain ⟨hstop, hstop'⟩ := int5_range h.valid.averagingStop
  obtain ⟨hwindow, hwindow'⟩ := averageWindow_range h.valid.averageWindow
  have hspace := h.space
  have hbegin := h.begin_lt
  have hperiod := h.period_lt
  have hfirst : firstEdge cache ≤ 47 := by
    rw [averageOffset] at hoffset
    rw [firstEdge, averageOffset, size]
    omega
  have hexact : ∀ j ≤ n, size (eb + j * period) = eb + j * period := by
    intro j hj
    induction j with
    | zero => exact size_eq (by push_cast; ring) (by omega)
    | succ j ih =>
      have hsmall := h.finds.1 j (by omega)
      rw [ih (by omega)] at hsmall
      refine size_eq (by push_cast; ring) ?_
      rw [Nat.succ_mul]
      omega
  have hle := h.average_le
  constructor
  · rw [h.edge, hexact n le_rfl]
  · omega

end Edge

/-! ## The atoms outside of the hold intervals -/

/-- If the trigger bit has two edges and the last loop is entered, its window is not empty and it
begins at a hold interval. -/
def HoldsAligned (cache : Cache) (inp count : ℕ) (m : Memory) : Prop :=
  edgeBegin m inp count < count → edgeEnd m inp count < count →
    let period := edgeEnd m inp count - edgeBegin m inp count
    ∀ n, Finds cache (edgeBegin m inp count) period n →
      let holdstart := size (size (edgeBegin m inp count + n * period) + (cache.sr .start).toInt)
      holdstart < count →
        0 < holdCount cache ∧ ∃ j,
          (holdstart : ℤ) = holdBegin cache (edgeBegin m inp count) period j

section Outside

variable {b : Build} {cache : Cache} {inp out count eb period n e : ℕ}

/-- The last loop leaves the atoms outside of the hold intervals as they are. -/
theorem holdLoop_outside (h : Found cache count eb period n e)
    (haligned : size (e + (cache.sr .start).toInt) < count → 0 < holdCount cache ∧
      ∃ j, (size (e + (cache.sr .start).toInt) : ℤ) = holdBegin cache eb period j)
    {shifts fuel turns : ℕ} {m : Memory} {s' : Turn × Memory}
    (hok : holdLoop b cache out count shifts period fuel turns (Turn.start cache e, m) = .ok s')
    {i : ℕ} (hi : ∀ k, ¬InHold cache eb period k i) : atoms s'.2 out i = atoms m out i := by
  let Inv : Turn × Memory → Prop := fun s =>
    (∃ k, s.1 = turnAt cache e period k ∧ Reached cache count period e k) ∧
      atoms s.2 out i = atoms m out i
  have hspace := h.space
  have hstep : ∀ s s' : Turn × Memory, Inv s → decide (s.1.holdstart < count) = true →
      holdStep b cache out count shifts period fuel s = .ok s' → Inv s' := by
    rintro ⟨t, m₁⟩ s' ⟨⟨k, rfl, hk⟩, hsame⟩ hguard hs'
    have hhold := of_decide_eq_true hguard
    obtain ⟨hnext, hreached, -⟩ := holdStep_next h hk hhold hs'
    obtain ⟨m₂, hturn, hs'⟩ := bind_ok.1 hs'
    cases hs'
    obtain ⟨sums, atom, -, -, hatoms⟩ := holdTurn_atoms (by omega) hhold hturn
    refine ⟨⟨k + 1, hnext, hreached⟩, ?_⟩
    have hbegin := h.holdstart_eq hk
    dsimp only at hhold
    obtain ⟨hwindow, j, hj⟩ := haligned (by omega)
    have hout : ¬InHold cache eb period (j + k) i := hi (j + k)
    rw [InHold, holdBegin] at hout
    rw [holdBegin] at hj
    dsimp only
    rw [hatoms, if_neg, hsame]
    rw [h.written_iff hhold hwindow, hbegin]
    push_cast at hout
    rw [add_mul] at hout
    omega
  have hstart : Inv (Turn.start cache e, m) :=
    ⟨⟨0, start_eq cache e period, fun j hj => absurd hj j.not_lt_zero⟩, rfl⟩
  exact (loop_invariant hstep hstart hok).1.2

/-- The last loop of a run that returned `0`, and the buffer of a run that did not. -/
theorem run_cases (hcache : SpikesValid cache) (hplaced : Placed (8 * count) inp out)
    (hspace : 32 * count ≤ 2 ^ 32) {m m' : Memory} {r : ℤ} {fuel : ℕ}
    (hrun : ebppTransformDdRemoveSpikes b cache inp out count fuel m = .ok (r, m')) :
    ∃ plain, transformFrom b cache inp out 0 count m = .ok plain ∧
      ((r ≠ 0 ∧ m' = plain) ∨
        (r = 0 ∧ 0 < count ∧ edgeEnd m inp count < count ∧ ∃ n turn,
          Finds cache (edgeBegin m inp count) (edgeEnd m inp count - edgeBegin m inp count) n ∧
          holdLoop b cache out count (countShifts 64 (cache.sr .averageWindow)).2
            (edgeEnd m inp count - edgeBegin m inp count) fuel fuel
            (Turn.start cache (size (edgeBegin m inp count +
              n * (edgeEnd m inp count - edgeBegin m inp count : ℕ))), plain) =
                .ok (turn, m'))) := by
  rcases Nat.eq_zero_or_pos count with rfl | hcount
  · exact nomatch hrun
  rw [ebppTransformDdRemoveSpikes_eq hplaced fuel hcount m] at hrun
  obtain ⟨plain, hplain, hrun⟩ := bind_ok.1 hrun
  refine ⟨plain, hplain, ?_⟩
  obtain ⟨-, hle, hlast⟩ := edges_bounds m inp hcount
  by_cases hbegin : edgeBegin m inp count = count
  · rw [if_pos hbegin] at hrun
    cases hrun
    exact .inl ⟨by decide, rfl⟩
  rw [if_neg hbegin] at hrun
  by_cases hend : edgeEnd m inp count = count
  · rw [if_pos hend] at hrun
    cases hrun
    exact .inl ⟨by decide, rfl⟩
  rw [if_neg hend, holdAverages_eq hcache] at hrun
  obtain ⟨e, hskip, hrun⟩ := bind_ok.1 hrun
  obtain ⟨s, hloop, hrun⟩ := bind_ok.1 hrun
  cases hrun
  obtain ⟨n, -, hfinds, rfl⟩ := (skipEdges_ok (by omega)).1 hskip
  exact .inr ⟨rfl, hcount, by omega, n, s.1, hfinds, hloop⟩

/-- **Outside of the hold intervals the spikes are left in.** The configuration is an accepted one,
and the last loop, where it is entered, has a window and begins at a hold interval. Then the atoms
outside of all hold intervals are those of the plain transform of the buffer as it was before, and
all atoms are if the transform returns an error. -/
theorem removeSpikes_outside (hcache : SpikesValid cache) (hplaced : Placed (8 * count) inp out)
    (hspace : 32 * count ≤ 2 ^ 32) {m m' : Memory} {r : ℤ} {fuel : ℕ}
    (haligned : HoldsAligned cache inp count m)
    (hrun : ebppTransformDdRemoveSpikes b cache inp out count fuel m = .ok (r, m')) :
    ∃ plain, ebppTransformDd b cache inp out count m = .ok (0, plain) ∧
      ∀ i < count, (r = 0 → ∀ k, ¬InHold cache (edgeBegin m inp count)
        (edgeEnd m inp count - edgeBegin m inp count) k i) →
          atomAt m' (out + 8 * i) = atomAt plain (out + 8 * i) := by
  obtain ⟨plain, hplain, hcases⟩ := run_cases hcache hplaced hspace hrun
  refine ⟨plain, by rw [ebppTransformDd, hplain]; rfl, fun i hi hout => ?_⟩
  rcases hcases with ⟨-, rfl⟩ | ⟨hzero, hcount, hend, n, turn, hfinds, hloop⟩
  · rfl
  · have hfound := found_of_finds hcache hspace hcount hend hfinds
    obtain ⟨-, hle, -⟩ := edges_bounds m inp hcount
    exact holdLoop_outside hfound (haligned (by omega) hend n hfinds) hloop (hout hzero)

/-- Averages that end at their edge, and a window, are enough for the intervals. -/
theorem holdsAligned_of_offset (hcache : SpikesValid cache) (hspace : 32 * count ≤ 2 ^ 32)
    (hoffset : averageOffset cache ≤ 0) (hwindow : 0 < holdCount cache) (m : Memory) :
    HoldsAligned cache inp count m := by
  intro hbegin hend
  dsimp only
  intro n hfinds hlt
  have hfound := found_of_finds hcache hspace (by omega) hend hfinds
  obtain ⟨hedge, hsmall⟩ := hfound.edge_exact hoffset
  obtain ⟨hstart, hstart'⟩ := int5_range hcache.start
  refine ⟨hwindow, n, ?_⟩
  rw [holdBegin]
  rw [hedge] at hlt hsmall ⊢
  rw [size] at hlt ⊢
  push_cast at hlt ⊢
  omega

end Outside

theorem removeSpikes_outside_four : ∃ r m',
    ebppTransformDdRemoveSpikes (.strict true) (spikesCache 0 (-1) 1 1) 0 0 4 9 (pulses [1]) =
      .ok (r, m') ∧
    ∃ plain, ebppTransformDd (.strict true) (spikesCache 0 (-1) 1 1) 0 0 4 (pulses [1]) =
        .ok (0, plain) ∧
      ∀ i < 4, (r = 0 → ∀ k, ¬InHold (spikesCache 0 (-1) 1 1) (edgeBegin (pulses [1]) 0 4)
        (edgeEnd (pulses [1]) 0 4 - edgeBegin (pulses [1]) 0 4) k i) →
          atomAt m' (0 + 8 * i) = atomAt plain (0 + 8 * i) := by
  have hcache : SpikesValid (spikesCache 0 (-1) 1 1) := ⟨by decide, by decide, by decide, by decide⟩
  have hfirst : (ebppTransformDdRemoveSpikes (.strict true) (spikesCache 0 (-1) 1 1) 0 0 4 9
      (pulses [1])).map Prod.fst = .ok 0 := by decide +kernel
  obtain ⟨⟨r, m'⟩, hrun, -⟩ := map_ok.1 hfirst
  exact ⟨r, m', hrun, removeSpikes_outside hcache (.inl rfl) (by decide)
    (holdsAligned_of_offset hcache (by decide) (by decide) (by decide) _) hrun⟩

/-- With an empty window the first atom of an empty interval is overwritten. -/
theorem spike_without_window : ∃ m' plain,
    ebppTransformDdRemoveSpikes (.strict true) (spikesCache 0 (-1) 1 0) 0 0 4 9 (pulses [1]) =
        .ok (0, m') ∧
      ebppTransformDd (.strict true) (spikesCache 0 (-1) 1 0) 0 0 4 (pulses [1]) = .ok (0, plain) ∧
      (∀ k i, ¬InHold (spikesCache 0 (-1) 1 0) (edgeBegin (pulses [1]) 0 4)
        (edgeEnd (pulses [1]) 0 4 - edgeBegin (pulses [1]) 0 4) k i) ∧
      atomAt m' (0 + 8 * 1) ≠ atomAt plain (0 + 8 * 1) := by
  have hheld : (ebppTransformDdRemoveSpikes (.strict true) (spikesCache 0 (-1) 1 0) 0 0 4 9
      (pulses [1])).map (fun r => (r.1, (atomAt r.2 8).Va)) = .ok (0, 1649) := by decide +kernel
  have hplain : (ebppTransformDd (.strict true) (spikesCache 0 (-1) 1 0) 0 0 4
      (pulses [1])).map (fun r => (r.1, (atomAt r.2 8).Va)) = .ok (0, 3297) := by decide +kernel
  obtain ⟨⟨r, m'⟩, hrun, hvalue⟩ := map_ok.1 hheld
  obtain ⟨⟨r', plain⟩, hrun', hvalue'⟩ := map_ok.1 hplain
  obtain ⟨rfl, hVa⟩ := Prod.mk.inj hvalue
  obtain ⟨rfl, hVa'⟩ := Prod.mk.inj hvalue'
  refine ⟨m', plain, hrun, hrun', fun k i hhold => ?_, fun hsame => ?_⟩
  · have hempty : holdCount (spikesCache 0 (-1) 1 0) = 0 := by decide
    rw [InHold, hempty] at hhold
    omega
  · have hdifferent := congrArg Atom.Va hsame
    exact absurd (hVa.symm.trans (hdifferent.trans hVa')) (by decide)

end LiberaDaq.Transform
