import LiberaDaq.Interaction.Loop
import LiberaDaq.Transform.Positions

/-!
# The transform that removes spikes

`ebpp_transform_dd_remove_spikes` of `ebpp.c`. Three loops in a row transform the buffer and look
for two edges of the trigger bit; then, one period after the other, the atoms of a hold interval
are overwritten with an average. An index is tested where it is used, and a loop that may not end
is given a number of turns.
-/

namespace LiberaDaq.Transform

open Cspi

/-! ## The code -/

/-- A value of `size_t`, which has 32 bits. -/
def size (x : ℤ) : ℕ := (x % 2 ^ 32).toNat

/-- The test of an index. -/
def access (count i : ℕ) : Except Fault Unit := if i < count then .ok () else .error .outside

/-- The trigger bit of a raw atom. -/
def triggerBit (m : Memory) (inp i : ℕ) : Word := m (inp + 8 * i) &&& 1

/-- The loops that look for an edge: atoms are transformed while their trigger bit is `tb`. `n` is
the number of atoms that are left. -/
def transformWhile (b : Build) (cache : Cache) (inp out : ℕ) (tb : Word) :
    ℕ → ℕ → Memory → Except Fault (ℕ × Memory)
  | 0, i, m => pure (i, m)
  | n + 1, i, m =>
    if triggerBit m inp i = tb then do
      let m' ← ebppTransformDdSingle b cache (inp + 8 * i) (out + 8 * i) m
      transformWhile b cache inp out tb n (i + 1) m'
    else pure (i, m)

/-- The loop that counts `shifts`. -/
def countShifts : ℕ → Word → Word × ℕ
  | 0, i => (i, 0)
  | n + 1, i =>
    if i &&& 1 = 0 then
      let (i', shifts) := countShifts n (i >>> 1)
      (i', shifts + 1)
    else (i, 0)

/-- The indices of one turn of the last loop. -/
@[ext] structure Turn where
  avestart : ℕ
  avestop : ℕ
  holdstart : ℕ
  holdstop : ℕ
  deriving DecidableEq, Repr

/-- The sum `cache.sr.start+cache.sr.averaging_stop-cache.sr.average_window+1`, which the validators
keep far from the bounds of `int`. -/
def averageOffset (cache : Cache) : ℤ :=
  (cache.sr .start).toInt + (cache.sr .averagingStop).toInt - (cache.sr .averageWindow).toInt + 1

/-- The indices for the edge at `eb`. -/
def Turn.start (cache : Cache) (eb : ℕ) : Turn :=
  let avestop := size (eb + (cache.sr .start).toInt + (cache.sr .averagingStop).toInt)
  let avestart := size (avestop - (cache.sr .averageWindow).toInt + 1)
  let holdstart := size (eb + (cache.sr .start).toInt)
  let holdstop := size (holdstart + (cache.sr .window).toInt - 1)
  ⟨avestart, avestop, holdstart, holdstop⟩

/-- The indices for the next edge. -/
def Turn.next (period : ℕ) (t : Turn) : Turn :=
  ⟨size (t.avestart + period), size (t.avestop + period), size (t.holdstart + period),
    size (t.holdstop + period)⟩

/-- The accumulated values `ave_a`, `ave_b`, `ave_c` and `ave_d`. -/
structure Sums where
  a : ℤ
  b : ℤ
  c : ℤ
  d : ℤ
  deriving DecidableEq, Repr

/-- One turn of the loop that accumulates. The pointer `q` stays at the first atom, since the loop
advances `p`. -/
def accumulateTurn (b : Build) (out count : ℕ) (t : Turn) (m : Memory) (s : ℕ × Sums) :
    Except Fault (ℕ × Sums) := do
  access count t.avestart
  let q := out + 8 * t.avestart
  let a ← b.int64 (s.2.a + (m q).toInt)
  let b' ← b.int64 (s.2.b + (m (q + 1)).toInt)
  let c ← b.int64 (s.2.c + (m (q + 2)).toInt)
  let d ← b.int64 (s.2.d + (m (q + 3)).toInt)
  pure (size (s.1 + 1), ⟨a, b', c, d⟩)

/-- The loop that accumulates. -/
def accumulate (b : Build) (out count fuel : ℕ) (t : Turn) (m : Memory) : Except Fault Sums := do
  let s ← loop .unfinished (fun s => s.1 ≤ t.avestop) (accumulateTurn b out count t m) fuel
    (t.avestart, ⟨0, 0, 0, 0⟩)
  pure s.2

/-- `(x * k) / S - offset` of type `int64_t`. -/
def averageCoordinate (b : Build) (x k S offset : ℤ) : Except Fault ℤ := do
  let product ← b.int64 (x * k)
  let quotient ← b.div64 product S
  b.int64 (quotient - offset)

/-- The atom of the accumulated values. -/
def averageAtom (b : Build) (cache : Cache) (shifts : ℕ) (s : Sums) : Except Fault Atom := do
  let Va ← b.shift64 s.a shifts
  let Vb ← b.shift64 s.b shifts
  let Vc ← b.shift64 s.c shifts
  let Vd ← b.shift64 s.d shifts
  let S := Va + Vb + Vc + Vd
  let X ← averageCoordinate b (Va + Vd - Vb - Vc) cache.kx.toInt S cache.xoffset.toInt
  let Y ← averageCoordinate b (Va + Vb - Vc - Vd) cache.ky.toInt S cache.yoffset.toInt
  let Q ← averageCoordinate b (Va + Vc - Vb - Vd) cache.kx.toInt S cache.qoffset.toInt
  -- prevents an overflow of the sum
  let S := S >>> (2 : ℕ)
  let va ← b.castInt Va
  let vb ← b.castInt Vb
  let vc ← b.castInt Vc
  let vd ← b.castInt Vd
  let x ← b.castInt X
  let y ← b.castInt Y
  let q ← b.castInt Q
  let sum ← b.castInt S
  pure ⟨.ofInt 32 va, .ofInt 32 vb, .ofInt 32 vc, .ofInt 32 vd, .ofInt 32 x, .ofInt 32 y,
    .ofInt 32 q, .ofInt 32 sum⟩

/-- The loop that copies the atom at `holdstart` to the `n` atoms from index `i` on. -/
def copyAtoms (out count holdstart : ℕ) : ℕ → ℕ → Memory → Except Fault Memory
  | 0, _, m => pure m
  | n + 1, i, m => do
    access count i
    copyAtoms out count holdstart n (i + 1)
      (putAtom m (out + 8 * i) (atomAt m (out + 8 * holdstart)))

/-- One turn of the last loop. -/
def holdTurn (b : Build) (cache : Cache) (out count shifts fuel : ℕ) (t : Turn) (m : Memory) :
    Except Fault Memory := do
  let sums ← accumulate b out count fuel t m
  let atom ← averageAtom b cache shifts sums
  let last := if t.holdstop < count then t.holdstop else size (count - 1)
  access count t.holdstart
  let m' := putAtom m (out + 8 * t.holdstart) atom
  copyAtoms out count t.holdstart (last - t.holdstart) (t.holdstart + 1) m'

/-- The loop that looks for the first edge at which averages can be calculated. -/
def skipEdges (cache : Cache) (period fuel eb : ℕ) : Except Fault ℕ :=
  let first := size (-averageOffset cache)
  loop .unfinished (fun eb => eb < first) (fun eb => pure (size (eb + period))) fuel eb

/-- One turn of the last loop, and the step to the next edge. -/
def holdStep (b : Build) (cache : Cache) (out count shifts period fuel : ℕ) (s : Turn × Memory) :
    Except Fault (Turn × Memory) := do
  let m' ← holdTurn b cache out count shifts fuel s.1 s.2
  pure (s.1.next period, m')

/-- The last loop. -/
def holdLoop (b : Build) (cache : Cache) (out count shifts period fuel : ℕ) :
    ℕ → Turn × Memory → Except Fault (Turn × Memory) :=
  loop .unfinished (fun s => s.1.holdstart < count)
    (holdStep b cache out count shifts period fuel)

/-- The part of `ebpp_transform_dd_remove_spikes` after the transforms. -/
def holdAverages (b : Build) (cache : Cache) (out count fuel eb ee : ℕ) (m : Memory) :
    Except Fault (ℤ × Memory) :=
  let (i, shifts) := countShifts 64 (cache.sr .averageWindow)
  if i >>> 1 ≠ 0 then pure (-3, m)
  else do
    let period := ee - eb
    let eb' ← skipEdges cache period fuel eb
    let s ← holdLoop b cache out count shifts period fuel fuel (Turn.start cache eb', m)
    pure (0, s.2)

/-- `ebpp_transform_dd_remove_spikes`. -/
def ebppTransformDdRemoveSpikes (b : Build) (cache : Cache) (inp out count fuel : ℕ)
    (m : Memory) : Except Fault (ℤ × Memory) := do
  access count 0
  let tb := triggerBit m inp 0
  let m₁ ← ebppTransformDdSingle b cache inp out m
  let (eb, m₂) ← transformWhile b cache inp out tb (count - 1) 1 m₁
  if eb = count then pure (-1, m₂)
  else do
    access count eb
    let (ee, m₃) ← transformWhile b cache inp out (triggerBit m₂ inp eb) (count - eb) eb m₂
    if ee = count then pure (-2, m₃)
    else do
      let m₄ ← transformFrom b cache inp out ee (count - ee) m₃
      holdAverages b cache out count fuel eb ee m₄

/-! ## The three loops transform the buffer -/

/-- The first index at which the trigger bit is not `tb`, or the end of the buffer. -/
def edgeFrom (bit : ℕ → Word) (tb : Word) : ℕ → ℕ → ℕ
  | 0, i => i
  | n + 1, i => if bit i = tb then edgeFrom bit tb n (i + 1) else i

/-- The index of the first edge of the trigger bit. -/
def edgeBegin (m : Memory) (inp count : ℕ) : ℕ :=
  edgeFrom (triggerBit m inp) (triggerBit m inp 0) (count - 1) 1

/-- The index of the second edge. -/
def edgeEnd (m : Memory) (inp count : ℕ) : ℕ :=
  let eb := edgeBegin m inp count
  edgeFrom (triggerBit m inp) (triggerBit m inp eb) (count - eb) eb

theorem edgeFrom_bounds (bit : ℕ → Word) (tb : Word) (n i : ℕ) :
    i ≤ edgeFrom bit tb n i ∧ edgeFrom bit tb n i ≤ i + n := by
  induction n generalizing i with
  | zero => simp [edgeFrom]
  | succ n ih =>
    rw [edgeFrom]
    split
    · have hlater := ih (i + 1)
      omega
    · omega

theorem edgeFrom_lt (bit : ℕ → Word) {n i : ℕ} (hn : 0 < n) : i < edgeFrom bit (bit i) n i := by
  obtain ⟨n, rfl⟩ : ∃ n', n = n' + 1 := ⟨n - 1, by omega⟩
  rw [edgeFrom, if_pos rfl]
  exact (edgeFrom_bounds bit (bit i) n (i + 1)).1

theorem edges_bounds (m : Memory) (inp : ℕ) {count : ℕ} (hcount : 0 < count) :
    0 < edgeBegin m inp count ∧ edgeBegin m inp count ≤ edgeEnd m inp count ∧
      edgeEnd m inp count ≤ count := by
  have hbegin := edgeFrom_bounds (triggerBit m inp) (triggerBit m inp 0) (count - 1) 1
  have hend := edgeFrom_bounds (triggerBit m inp) (triggerBit m inp (edgeBegin m inp count))
    (count - edgeBegin m inp count) (edgeBegin m inp count)
  change 1 ≤ edgeBegin m inp count ∧ edgeBegin m inp count ≤ _ at hbegin
  change edgeBegin m inp count ≤ edgeEnd m inp count ∧ edgeEnd m inp count ≤ _ at hend
  omega

theorem edgeBegin_lt_edgeEnd {m : Memory} {inp count : ℕ} (h : edgeBegin m inp count < count) :
    edgeBegin m inp count < edgeEnd m inp count :=
  edgeFrom_lt _ (by omega)

section Buffer

variable {b : Build} {cache : Cache} {inp out count : ℕ} (hplaced : Placed (8 * count) inp out)
include hplaced

/-- The trigger bits of later atoms are still there. -/
theorem triggerBit_kept {i n : ℕ} {m m' : Memory}
    (hframe : ∀ a, a < out + 8 * i ∨ out + 8 * (i + n) ≤ a → m' a = m a) {j : ℕ}
    (hj : i + n ≤ j) (hj' : j < count) : triggerBit m' inp j = triggerBit m inp j := by
  have happart : inp = out ∨ inp + 8 * count ≤ out ∨ out + 8 * count ≤ inp := hplaced
  rw [triggerBit, triggerBit, hframe _ (by omega)]

/-- A loop that looks for an edge transforms the atoms before it. -/
theorem transformWhile_eq {bit : ℕ → Word} (tb : Word) {n i : ℕ} (hin : i + n = count) {m : Memory}
    (hbit : ∀ j, i ≤ j → j < count → triggerBit m inp j = bit j) :
    transformWhile b cache inp out tb n i m =
      (transformFrom b cache inp out i (edgeFrom bit tb n i - i) m).map
        fun m' => (edgeFrom bit tb n i, m') := by
  induction n generalizing i m with
  | zero =>
    rw [edgeFrom, Nat.sub_self]
    rfl
  | succ n ih =>
    rw [transformWhile, edgeFrom, hbit i le_rfl (by omega)]
    by_cases h : bit i = tb
    · rw [if_pos h, if_pos h]
      have hlater := edgeFrom_bounds bit tb n (i + 1)
      obtain ⟨k, hk⟩ : ∃ k, edgeFrom bit tb n (i + 1) = i + 1 + k :=
        Nat.exists_eq_add_of_le hlater.1
      rw [hk, show i + 1 + k - i = k + 1 by omega, transformFrom]
      cases hfirst : ebppTransformDdSingle b cache (inp + 8 * i) (out + 8 * i) m with
      | error e => rfl
      | ok m₁ =>
        rw [ok_bind, ok_bind, ih (by omega), hk, Nat.add_sub_cancel_left]
        intro j hij hj
        rw [triggerBit_kept hplaced (n := 1) (fun a ha =>
          single_frame hplaced (by omega) hfirst (by omega)) hij hj]
        exact hbit j (by omega) hj
    · rw [if_neg h, if_neg h, Nat.sub_self]
      rfl

theorem triggerBit_transformFrom {n : ℕ} (hn : n ≤ count) {m m' : Memory}
    (h : transformFrom b cache inp out 0 n m = .ok m') {j : ℕ} (hj : n ≤ j) (hj' : j < count) :
    triggerBit m' inp j = triggerBit m inp j :=
  triggerBit_kept hplaced (i := 0) (n := n)
    (fun a ha => transformFrom_frame hplaced (by omega) h (by omega)) (by omega) hj'

/-- **The three loops together are the plain transform.** The edges are those of the trigger bits
that were in the buffer before. -/
theorem ebppTransformDdRemoveSpikes_eq (fuel : ℕ) (hcount : 0 < count) (m : Memory) :
    ebppTransformDdRemoveSpikes b cache inp out count fuel m = (do
      let m' ← transformFrom b cache inp out 0 count m
      if edgeBegin m inp count = count then pure (-1, m')
      else if edgeEnd m inp count = count then pure (-2, m')
      else
        holdAverages b cache out count fuel (edgeBegin m inp count) (edgeEnd m inp count) m') := by
  obtain ⟨hpos, hle, hend⟩ := edges_bounds m inp hcount
  have hone : transformFrom b cache inp out 0 1 m = ebppTransformDdSingle b cache inp out m := by
    rw [transformFrom]
    exact bind_pure _
  have hbegin : edgeBegin m inp count = 1 + (edgeBegin m inp count - 1) := by omega
  -- the plain loop, cut at the edges
  have hsplit : transformFrom b cache inp out 0 count m =
      (ebppTransformDdSingle b cache inp out m >>= fun m₁ =>
        transformFrom b cache inp out 1 (edgeBegin m inp count - 1) m₁ >>= fun m₂ =>
          transformFrom b cache inp out (edgeBegin m inp count)
              (edgeEnd m inp count - edgeBegin m inp count) m₂ >>=
            transformFrom b cache inp out (edgeEnd m inp count)
              (count - edgeEnd m inp count)) := by
    have hcut : count = 1 + ((edgeBegin m inp count - 1) +
        ((edgeEnd m inp count - edgeBegin m inp count) + (count - edgeEnd m inp count))) := by omega
    conv_lhs => rw [hcut, transformFrom_append, hone]
    refine bind_congr fun m₁ => ?_
    rw [transformFrom_append]
    refine bind_congr fun m₂ => ?_
    rw [transformFrom_append, Nat.zero_add, ← hbegin, Nat.add_sub_cancel' hle]
  rw [hsplit, ebppTransformDdRemoveSpikes, access, if_pos hcount, ok_bind]
  cases hfirst : ebppTransformDdSingle b cache inp out m with
  | error e => rfl
  | ok m₁ =>
  rw [ok_bind, ok_bind]
  rw [← hone] at hfirst
  have hscan : transformWhile b cache inp out (triggerBit m inp 0) (count - 1) 1 m₁ =
      (transformFrom b cache inp out 1 (edgeBegin m inp count - 1) m₁).map
        fun m' => (edgeBegin m inp count, m') :=
    transformWhile_eq hplaced _ (by omega) fun j hj hj' =>
      triggerBit_transformFrom hplaced hcount hfirst hj hj'
  rw [hscan]
  cases hsecond : transformFrom b cache inp out 1 (edgeBegin m inp count - 1) m₁ with
  | error e => rfl
  | ok m₂ =>
  simp only [Except.map, ok_bind]
  by_cases hnone : edgeBegin m inp count = count
  · have hnone' : edgeEnd m inp count = count := by omega
    simp only [hnone, hnone', Nat.sub_self, if_true]
    rfl
  · have htransformed : transformFrom b cache inp out 0 (edgeBegin m inp count) m = .ok m₂ := by
      rw [hbegin, transformFrom_append, hfirst, ok_bind]
      exact hsecond
    have hscan' : transformWhile b cache inp out (triggerBit m₂ inp (edgeBegin m inp count))
        (count - edgeBegin m inp count) (edgeBegin m inp count) m₂ =
          (transformFrom b cache inp out (edgeBegin m inp count)
            (edgeEnd m inp count - edgeBegin m inp count) m₂).map
              fun m' => (edgeEnd m inp count, m') := by
      rw [triggerBit_transformFrom hplaced (by omega) htransformed le_rfl (by omega)]
      exact transformWhile_eq hplaced _ (by omega) fun j hj hj' =>
        triggerBit_transformFrom hplaced (by omega) htransformed hj hj'
    rw [if_neg hnone, access, if_pos (by omega), ok_bind, hscan']
    cases hthird : transformFrom b cache inp out (edgeBegin m inp count)
        (edgeEnd m inp count - edgeBegin m inp count) m₂ with
    | error e => rfl
    | ok m₃ =>
    simp only [Except.map, ok_bind, if_neg hnone]
    by_cases hnone' : edgeEnd m inp count = count
    · simp only [hnone', Nat.sub_self, if_true]
      rfl
    · simp only [if_neg hnone']

end Buffer

end LiberaDaq.Transform
