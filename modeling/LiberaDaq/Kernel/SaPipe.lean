import LiberaDaq.Memory.Ring
import Mathlib.Data.Nat.Bitwise

/-!
# The pipe of an SA reader

Every reader of the SA device has a pipe, a ring of `SA_LOG` atoms (`libera_sa.h`): `put` and `get`
are the cells that were written and read last, and one cell always stays empty. The pipe is a queue
with room for `SA_LOG - 1` atoms.

`libera_pipe_write` asks `free_saFIFO` for the free space, which counts the cell that stays empty.
So a block that is one atom too long is stored but for its last atom, and no error is returned
(`writesWhole_iff`).
-/

namespace LiberaDaq.Kernel

open LiberaDaq.Memory

variable {α : Type}

/-- `SA_LOG`. -/
def saLog : ℕ := 64

/-- `SA_LOG_MASK`. -/
def saLogMask : ℕ := saLog - 1

/-- The size of `libera_atom_sa_t`. -/
def saAtomSize : ℕ := 64

theorem zero_lt_saLog : 0 < saLog := by decide

theorem and_saLogMask (n : ℕ) : n &&& saLogMask = n % saLog := Nat.and_two_pow_sub_one_eq_mod n 6

theorem and_saLogMask_lt (n : ℕ) : n &&& saLogMask < saLog := by
  rw [and_saLogMask]
  exact Nat.mod_lt n zero_lt_saLog

/-- `struct libera_sa_fifo`. -/
structure SaFifo (α : Type) where
  data : ℕ → α
  put : ℕ
  get : ℕ
  put_lt : put < saLog
  get_lt : get < saLog

namespace SaFifo

/-- `flush_saFIFO`. -/
def flush (q : SaFifo α) : SaFifo α :=
  { q with put := 0, get := 0, put_lt := zero_lt_saLog, get_lt := zero_lt_saLog }

/-- `len_saFIFO`. -/
def len (q : SaFifo α) : ℕ := (q.put + saLog - q.get) &&& saLogMask

/-- `free_saFIFO`. -/
def free (q : SaFifo α) : ℕ := saLog - q.len

/-- `putTo_saFIFO`. -/
def putTo (q : SaFifo α) (a : α) : ℤ × SaFifo α :=
  let index := (q.put + 1) &&& saLogMask
  if index = q.get then (-1, q)
  else (0, { q with data := Function.update q.data index a, put := index
                    put_lt := and_saLogMask_lt _ })

/-- `getFrom_saFIFO`. -/
def getFrom (q : SaFifo α) : Option α × SaFifo α :=
  if q.put = q.get then (none, q)
  else
    let index := (q.get + 1) &&& saLogMask
    (some (q.data index), { q with get := index, get_lt := and_saLogMask_lt _ })

/-- The loop of `libera_pipe_write` from the atom `i` of the block on, for a number of atoms: how
many atoms of the block were put then. -/
def putAtoms (buf : ℕ → α) : ℕ → ℕ → SaFifo α → ℕ × SaFifo α
  | 0, i, q => (i, q)
  | n + 1, i, q =>
    let (rc, q') := q.putTo (buf i)
    if rc ≠ 0 then (i, q') else putAtoms buf n (i + 1) q'

/-- `EINVAL` and `EFAULT`. -/
def eInval : ℤ := 22

def eFault : ℤ := 14

/-- `libera_pipe_write`, for `count` bytes of a buffer of atoms. -/
def pipeWrite (q : SaFifo α) (buf : ℕ → α) (count : ℕ) : ℤ × SaFifo α :=
  if count = 0 then (0, q)
  else if count % saAtomSize ≠ 0 then (-eInval, q)
  else
    let saCount := count / saAtomSize
    if q.free < saCount then (-eFault, q)
    else
      let (written, q) := putAtoms buf saCount 0 q
      (written * saAtomSize, q)

/-! ## The queue of a pipe -/

/-- The atoms that the pipe holds, the next one to be read first. -/
def contents (q : SaFifo α) : List α := ringSlice q.data saLog (q.get + 1) q.len

/-- The number of atoms that the pipe has room for. -/
def room (q : SaFifo α) : ℕ := saLog - 1 - q.len

variable {q q' : SaFifo α} {a : α} {buf : ℕ → α} {n i : ℕ}

theorem len_eq : q.len = ringDist saLog q.get q.put := and_saLogMask _

theorem len_lt : q.len < saLog := by
  rw [len_eq]
  exact ringDist_lt (by decide)

theorem free_eq : q.free = q.room + 1 := by
  have hlt := q.len_lt
  unfold free room
  omega

theorem contents_eq : q.contents = ringQueue q.data saLog q.get q.put := by
  rw [contents, len_eq, ringQueue]

/-- The next cell is that of `get` when the pipe is full. -/
theorem next_eq_get_iff : (q.put + 1) &&& saLogMask = q.get ↔ q.room = 0 := by
  have hlt := q.len_lt
  rw [and_saLogMask, next_eq_iff q.get_lt q.put_lt, ← len_eq]
  unfold room
  omega

theorem putTo_full (h : q.room = 0) : q.putTo a = (-1, q) := if_pos (next_eq_get_iff.2 h)

/-- With room the atom is appended. -/
theorem putTo_room (h : 0 < q.room) : ∃ q', q.putTo a = (0, q') ∧ q'.contents = q.contents ++ [a] ∧
    q'.room + 1 = q.room := by
  have hnext : ¬(q.put + 1) &&& saLogMask = q.get := fun hn => by
    rw [next_eq_get_iff] at hn
    omega
  have hne : (q.put + 1) % saLog ≠ q.get := by rwa [and_saLogMask] at hnext
  refine ⟨_, if_neg hnext, ?_, ?_⟩
  · rw [contents_eq, contents_eq]
    dsimp only
    rw [and_saLogMask, ringQueue_put q.get_lt q.put_lt hne]
  · rw [room, len_eq]
    dsimp only
    rw [and_saLogMask, ringDist_next q.get_lt q.put_lt hne, ← len_eq]
    unfold room at h ⊢
    omega

/-- The first atom is taken off. -/
theorem getFrom_spec : (q.contents = [] ∧ q.getFrom = (none, q)) ∨
    ∃ a q', q.getFrom = (some a, q') ∧ q.contents = a :: q'.contents := by
  by_cases h : q.put = q.get
  · left
    exact ⟨by rw [contents_eq, h, ringQueue_self], if_pos h⟩
  · right
    refine ⟨_, _, if_neg h, ?_⟩
    rw [contents_eq, contents_eq]
    dsimp only
    rw [and_saLogMask, ringQueue_get q.get_lt q.put_lt h]

/-! ## Blocks -/

/-- The first `n` atoms of a block, from the atom `i` on. -/
def block (buf : ℕ → α) (i n : ℕ) : List α := (List.range n).map fun k => buf (i + k)

theorem block_succ : block buf i (n + 1) = buf i :: block buf (i + 1) n := by
  simp only [block, List.range_succ_eq_map, List.map_cons, List.map_map, Nat.add_zero]
  congr 1
  apply List.map_congr_left
  intro k _
  simp only [Function.comp_apply, Nat.succ_eq_add_one]
  congr 1
  omega

/-- The loop puts as many atoms as there is room for. -/
theorem putAtoms_spec (buf : ℕ → α) (n i : ℕ) (q : SaFifo α) :
    (putAtoms buf n i q).1 = i + min n q.room ∧
    (putAtoms buf n i q).2.contents = q.contents ++ block buf i (min n q.room) := by
  induction n generalizing i q with
  | zero => simp [putAtoms, block]
  | succ n ih =>
    unfold putAtoms
    by_cases hroom : q.room = 0
    · simp [putTo_full hroom, hroom, block]
    · obtain ⟨q', hput, hcontents, hrest⟩ := putTo_room (a := buf i) (Nat.pos_of_ne_zero hroom)
      obtain ⟨hcount, hall⟩ := ih (i + 1) q'
      have hmin : min (n + 1) q.room = min n q'.room + 1 := by omega
      rw [hput]
      simp only [ne_eq, not_true_eq_false, if_false]
      rw [hcount, hall, hcontents, hmin, block_succ]
      refine ⟨by omega, ?_⟩
      rw [List.append_assoc, List.singleton_append]

/-- **What `libera_pipe_write` does**, for the blocks that it can be asked for. -/
theorem pipeWrite_spec {count : ℕ} : q.pipeWrite buf count =
    if count % saAtomSize ≠ 0 then (-eInval, q)
    else if q.room + 1 < count / saAtomSize then (-eFault, q)
    else ((min (count / saAtomSize) q.room * saAtomSize : ℕ),
      (putAtoms buf (count / saAtomSize) 0 q).2) := by
  unfold pipeWrite
  by_cases hzero : count = 0
  · subst hzero
    simp [putAtoms]
  · rw [if_neg hzero, free_eq]
    dsimp only
    split
    · rfl
    · split
      · rfl
      · have hcount := (putAtoms_spec buf (count / saAtomSize) 0 q).1
        rw [hcount, Nat.zero_add]
        push_cast
        rfl

/-- The block is stored as a whole, or nothing of it is stored and an error is returned, which is so
exactly when the pipe has too little room. -/
def WritesWhole (q : SaFifo α) (buf : ℕ → α) (count : ℕ) : Prop :=
  if count ≤ q.room * saAtomSize then
    0 ≤ (q.pipeWrite buf count).1 ∧
      (q.pipeWrite buf count).2.contents = q.contents ++ block buf 0 (count / saAtomSize)
  else
    (q.pipeWrite buf count).1 < 0 ∧ (q.pipeWrite buf count).2.contents = q.contents

/-- A block is written as a whole or not at all iff it is not one atom longer than the room, and one
that fits is made of whole atoms. -/
theorem writesWhole_iff {count : ℕ} : q.WritesWhole buf count ↔
    (count ≤ q.room * saAtomSize → saAtomSize ∣ count) ∧ count ≠ (q.room + 1) * saAtomSize := by
  have hpos : 0 < saAtomSize := by decide
  have hinval : ¬(0 : ℤ) ≤ -eInval := by decide
  have hfault : -eFault < 0 := by decide
  unfold WritesWhole
  by_cases hdvd : saAtomSize ∣ count
  · obtain ⟨m, hm⟩ := hdvd
    rw [Nat.mul_comm] at hm
    subst hm
    have hmod : ¬m * saAtomSize % saAtomSize ≠ 0 := by simp
    have hall := (putAtoms_spec buf m 0 q).2
    have hdvd : saAtomSize ∣ m * saAtomSize := ⟨m, Nat.mul_comm m saAtomSize⟩
    rw [pipeWrite_spec, if_neg hmod, Nat.mul_div_cancel m hpos]
    simp only [Nat.mul_le_mul_right_iff hpos, ne_eq, Nat.mul_left_inj hpos.ne']
    rcases Nat.lt_trichotomy m (q.room + 1) with hlt | heq | hgt
    · -- the block fits
      have hmin : min m q.room = m := by omega
      rw [hmin] at hall
      rw [if_pos (by omega), if_neg (by omega)]
      exact ⟨fun _ => ⟨fun _ => hdvd, by omega⟩, fun _ => ⟨Int.natCast_nonneg _, hall⟩⟩
    · -- `free_saFIFO` has it fit, and the last atom is refused
      rw [if_neg (by omega), if_neg (by omega)]
      constructor
      · intro h
        exact absurd h.1 (Int.not_lt.2 (Int.natCast_nonneg _))
      · intro h
        exact absurd heq h.2
    · rw [if_neg (by omega), if_pos (by omega)]
      exact ⟨fun _ => ⟨fun _ => hdvd, by omega⟩, fun _ => ⟨hfault, rfl⟩⟩
  · have hmod : count % saAtomSize ≠ 0 := fun h => hdvd (Nat.dvd_of_mod_eq_zero h)
    rw [pipeWrite_spec, if_pos hmod]
    have hne : count ≠ (q.room + 1) * saAtomSize := fun h =>
      hdvd ⟨q.room + 1, by rw [h, Nat.mul_comm]⟩
    split
    · next hfits =>
      constructor
      · intro h
        exact absurd h.1 hinval
      · intro h
        exact absurd (h.1 hfits) hdvd
    · next hlong =>
        exact ⟨fun _ => ⟨fun h => absurd h hlong, hne⟩, fun _ => ⟨Int.not_le.1 hinval, rfl⟩⟩

/-! ## Single atoms -/

/-- The write of one atom to a pipe with room. -/
theorem pipeWrite_one_room (h : 0 < q.room) : ∃ q', q.pipeWrite (fun _ => a) saAtomSize =
    ((saAtomSize : ℤ), q') ∧ q'.contents = q.contents ++ [a] := by
  obtain ⟨q', hput, hcontents, -⟩ := putTo_room (a := a) h
  have hone : saAtomSize / saAtomSize = 1 := by decide
  have hmin : min 1 q.room = 1 := by omega
  refine ⟨q', ?_, hcontents⟩
  rw [pipeWrite_spec, if_neg (by decide), hone, if_neg (by omega), hmin]
  simp [putAtoms, hput]

/-- The write of one atom to a full pipe stores nothing and gives no error. -/
theorem pipeWrite_one_full (h : q.room = 0) : q.pipeWrite (fun _ => a) saAtomSize = (0, q) := by
  have hone : saAtomSize / saAtomSize = 1 := by decide
  rw [pipeWrite_spec, if_neg (by decide), hone, if_neg (by omega), h]
  simp [putAtoms, putTo_full h]

end SaFifo

end LiberaDaq.Kernel
