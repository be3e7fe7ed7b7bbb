import LiberaDaq.Dd.Device
import LiberaDaq.Memory.Ring

/-!
# The DMA ring

The atoms of the DD device come from the output buffer of the FPGA (the OB fifo) through a ring in
memory, which the DMA controller fills and a reader empties (`libera_dma_t`, `libera_event.h`). The
controller is given a number of atoms, `csize`, that `libera_dma_get_DMAC_csize` chooses under five
restrictions.

An atom is known here by the request to the FPGA that it was delivered for, and its index among the
atoms of this request.
-/

namespace LiberaDaq.Dd

open LiberaDaq.Cspi LiberaDaq.Memory

/-! ## The status of the output buffer -/

/-- `DD_OB_SIZE`, in atoms. -/
def ddObSize (status : Word) : ℕ := (status &&& 0xFF).toNat

/-- `DD_OB_OVERRUN`. -/
def ddObOverrun (status : Word) : Bool := status.getLsbD 30

/-! ## The ring -/

/-- `libera_atom_dd_t`, by where it is from. -/
structure Atom where
  request : ℕ
  index : ℕ
  deriving DecidableEq, Repr

/-- The atoms of a request from an index on. -/
def stream (request index m : ℕ) : List Atom := (List.range m).map fun j => ⟨request, index + j⟩

theorem stream_add (request index m m' : ℕ) : stream request index (m + m') =
    stream request index m ++ stream request (index + m) m' := by
  simp [stream, List.range_add, Nat.add_assoc]

theorem stream_succ (request index m : ℕ) : stream request index (m + 1) =
    ⟨request, index⟩ :: stream request (index + 1) m := by
  rw [Nat.add_comm m 1, stream_add]
  rfl

theorem stream_concat (request index m : ℕ) : stream request index (m + 1) =
    stream request index m ++ [⟨request, index + m⟩] := stream_add request index m 1

theorem stream_isPrefix {request index m m' : ℕ} (h : m ≤ m') :
    stream request index m <+: stream request index m' := by
  obtain ⟨k, rfl⟩ := Nat.exists_eq_add_of_le h
  rw [stream_add]
  exact List.prefix_append _ _

/-- `LIBERA_DMA_FIFO_ATOMS`. -/
def dmaFifoAtoms : ℕ := 4096

/-- `LIBERA_DMA_FIFO_MASK`. -/
def dmaFifoMask : ℕ := dmaFifoAtoms - 1

/-- `LIBERA_DMA_BLOCK_ATOMS`. -/
def dmaBlockAtoms : ℤ := 128

theorem zero_lt_dmaFifoAtoms : 0 < dmaFifoAtoms := by decide

theorem and_dmaFifoMask (n : ℕ) : n &&& dmaFifoMask = n % dmaFifoAtoms :=
  Nat.and_two_pow_sub_one_eq_mod n 12

theorem and_dmaFifoMask_lt (n : ℕ) : n &&& dmaFifoMask < dmaFifoAtoms := by
  rw [and_dmaFifoMask]
  exact Nat.mod_lt n zero_lt_dmaFifoAtoms

/-- `libera_dma_t`, without the channel. -/
structure Dma where
  buf : ℕ → Atom
  put : ℕ
  get : ℕ
  put_lt : put < dmaFifoAtoms
  get_lt : get < dmaFifoAtoms
  csize : ℤ
  remaining : ℤ
  obFifoStatus : Word
  overrun : Bool
  dmacTransfer : Bool
  aborting : Bool
  written : ℕ

namespace Dma

/-- `flushDMA_FIFO`. -/
def flush (d : Dma) : Dma :=
  { d with put := 0, get := 0, put_lt := zero_lt_dmaFifoAtoms, get_lt := zero_lt_dmaFifoAtoms }

/-- `lenDMA_FIFO`. -/
def len (d : Dma) : ℕ := (d.put + dmaFifoAtoms - d.get) &&& dmaFifoMask

/-- `tailDMA_FIFO`. -/
def tail (d : Dma) : ℕ := dmaFifoAtoms - d.put

/-- `emptyDMA_FIFO`. -/
def empty (d : Dma) : Bool := d.put = d.get

/-- The space that is left in the ring. -/
def space (d : Dma) : ℤ := (dmaFifoAtoms : ℤ) - 1 - d.len

/-- `putToDMA_FIFO`. Only the index changes, the controller has copied the data. -/
def putTo (d : Dma) (sizeAtoms : ℕ) : ℤ × Dma :=
  let index := (d.put + sizeAtoms) &&& dmaFifoMask
  if index = d.get then (-1, d)
  else (0, { d with put := index, put_lt := and_dmaFifoMask_lt _ })

/-- The reader is done with an atom. -/
def advance (d : Dma) : Dma :=
  { d with get := (d.get + 1) &&& dmaFifoMask, get_lt := and_dmaFifoMask_lt _ }

/-- The status is read again, with a check for an overrun. -/
def refresh (d : Dma) (status : Word) : Dma :=
  { d with obFifoStatus := status, overrun := d.overrun || ddObOverrun status }

/-- A `long` as `unsigned long`. -/
def unsigned (x : ℤ) : ℕ := (x % 2 ^ 32).toNat

/-- `libera_dma_get_DMAC_csize`. The comparison with the size of the output buffer is one of
unsigned numbers. -/
def getDmacCsize (d : Dma) : Dma :=
  let block := min d.remaining dmaBlockAtoms
  let source := min d.tail (ddObSize d.obFifoStatus)
  let csizeTemp : ℤ := if unsigned block < source then block else source
  { d with csize := min d.space csizeTemp }

/-! ## Lengths -/

variable {d : Dma}

theorem len_eq : d.len = ringDist dmaFifoAtoms d.get d.put := and_dmaFifoMask _

theorem len_lt : d.len < dmaFifoAtoms := and_dmaFifoMask_lt _

theorem put_eq : (d.get + d.len) % dmaFifoAtoms = d.put := by
  rw [len_eq]
  exact add_ringDist d.get_lt d.put_lt

theorem empty_iff : d.empty = true ↔ d.len = 0 := by
  rw [len_eq, ringDist_eq_zero_iff d.get_lt d.put_lt, empty, decide_eq_true_iff]

theorem len_flush : d.flush.len = 0 := by
  rw [len_eq]
  exact ringDist_self

/-- The ring after a block of `n` atoms. -/
def moveTo (d : Dma) (n : ℕ) : Dma :=
  { d with put := (d.put + n) &&& dmaFifoMask, put_lt := and_dmaFifoMask_lt _ }

theorem moveTo_put {n : ℕ} : (d.moveTo n).put = (d.get + (d.len + n)) % dmaFifoAtoms := by
  change (d.put + n) &&& dmaFifoMask = _
  rw [and_dmaFifoMask, ← d.put_eq, Nat.mod_add_mod, Nat.add_assoc]

/-- A block for which there is space is put. -/
theorem putTo_of_space {n : ℕ} (h : d.len + n < dmaFifoAtoms) (hn : 0 < n) :
    d.putTo n = (0, d.moveTo n) := by
  refine if_neg fun heq => ?_
  have hindex : (d.get + (d.len + n)) % dmaFifoAtoms = d.get := moveTo_put.symm.trans heq
  have hzero : d.len + n = 0 := by
    refine add_mod_inj h (by decide) (hindex.trans ?_)
    rw [Nat.add_zero, Nat.mod_eq_of_lt d.get_lt]
  omega

theorem len_moveTo {n : ℕ} (h : d.len + n < dmaFifoAtoms) : (d.moveTo n).len = d.len + n := by
  rw [len_eq, moveTo_put]
  exact ringDist_add d.get_lt h

theorem len_advance (h : 0 < d.len) : d.advance.len + 1 = d.len := by
  have hlt := d.len_lt
  have hput : d.put = ((d.get + 1) % dmaFifoAtoms + (d.len - 1)) % dmaFifoAtoms := by
    rw [Nat.mod_add_mod, ← d.put_eq]
    congr 1
    omega
  have hlen : d.advance.len = d.len - 1 := by
    rw [len_eq]
    change ringDist dmaFifoAtoms ((d.get + 1) &&& dmaFifoMask) d.put = _
    rw [and_dmaFifoMask, hput, ringDist_add (Nat.mod_lt _ (by decide)) (by omega)]
  omega

/-! ## The five restrictions -/

/-- The restrictions on `csize`, as `libera_dma_get_DMAC_csize` lists them: the rest of the
transfer, the largest block, the atoms in the output buffer, the linear space, and the space. -/
structure Restricted (d : Dma) : Prop where
  remaining : d.csize ≤ d.remaining
  block : d.csize ≤ dmaBlockAtoms
  source : d.csize ≤ ddObSize d.obFifoStatus
  tail : d.csize ≤ d.tail
  space : d.csize ≤ d.space

theorem unsigned_of_nonneg {x : ℤ} (h0 : 0 ≤ x) (h : x < 2 ^ 32) : (unsigned x : ℤ) = x := by
  rw [unsigned, Int.toNat_of_nonneg (Int.emod_nonneg x (by decide)), Int.emod_eq_of_lt h0 h]

/-- The size is the least of the five. -/
theorem csize_getDmacCsize (h : 0 ≤ d.remaining) : d.getDmacCsize.csize =
    min d.space (min (min d.remaining dmaBlockAtoms) (min d.tail (ddObSize d.obFifoStatus))) := by
  have hblock : (unsigned (min d.remaining dmaBlockAtoms) : ℤ) = min d.remaining dmaBlockAtoms := by
    refine unsigned_of_nonneg (le_min h (by decide)) ?_
    exact (min_le_right _ _).trans_lt (by decide)
  have htemp : (if unsigned (min d.remaining dmaBlockAtoms) < min d.tail (ddObSize d.obFifoStatus)
      then min d.remaining dmaBlockAtoms else (min d.tail (ddObSize d.obFifoStatus) : ℕ)) =
      min (min d.remaining dmaBlockAtoms) (min d.tail (ddObSize d.obFifoStatus)) := by
    split <;> omega
  exact congrArg (min d.space) htemp

theorem restricted_getDmacCsize (h : 0 ≤ d.remaining) : d.getDmacCsize.Restricted := by
  have hmin := csize_getDmacCsize h
  have hrem : d.getDmacCsize.remaining = d.remaining := rfl
  have htail : d.getDmacCsize.tail = d.tail := rfl
  have hspace : d.getDmacCsize.space = d.space := rfl
  have hob : d.getDmacCsize.obFifoStatus = d.obFifoStatus := rfl
  refine ⟨?_, ?_, ?_, ?_, ?_⟩ <;>
  · simp only [hmin, hrem, htail, hspace, hob]
    omega

theorem space_nonneg : 0 ≤ d.space := by
  have := d.len_lt
  rw [space]
  omega

theorem tail_pos : 0 < d.tail := by
  have := d.put_lt
  rw [tail]
  omega

/-- The size is positive when there are atoms, to be transferred and in the output buffer, and
space. -/
theorem csize_pos (hr : 0 < d.remaining) (hob : ddObSize d.obFifoStatus ≠ 0) (hs : d.space ≠ 0) :
    0 < d.getDmacCsize.csize := by
  have htail := d.tail_pos
  have hspace := d.space_nonneg
  have hblock : (0 : ℤ) < dmaBlockAtoms := by decide
  rw [csize_getDmacCsize hr.le]
  omega

end Dma

end LiberaDaq.Dd
