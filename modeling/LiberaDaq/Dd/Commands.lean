import LiberaDaq.Cspi.Params
import LiberaDaq.Dd.Conversions
import LiberaDaq.Dd.Position
import Mathlib.Tactic.Linarith

/-!
# The commands of the DD device

A command to the FPGA consists of two words, with the start in the circular buffer and the filter in
the first and the number of atoms before the decimation in the second. The number is limited to
`DD_MAX_NOATOMS`, which is one more than its field holds, it is a product modulo `2 ^ 32`, and the
filter is that of the decimation by 64 for every decimation but one (`command_encoded_iff`).

Post mortem data are requested with the same command. Their start is computed back from the end by
the number of atoms, and not by the time that these span: the interval ends where it should only
without decimation (`pm_interval_iff`).
-/

namespace LiberaDaq.Dd

open LiberaDaq.Cspi LiberaDaq.Interaction
open LiberaDaq.Kernel (eInval eFault eRestartSys eIo)

variable {g : Clocks} {start count : ℕ} {dec : Word} {tr : List DdEvent}

/-! ## The fields of a command -/

/-- A field of a word, from its lowest bit on. -/
def field (lsb width : ℕ) (x : Word) : ℕ := x.toNat / 2 ^ lsb % 2 ^ width

/-- `DD_CBH_FDEC`, `DD_CBH_SADDR` and `DD_CBL_NOAT`. -/
def ddCbhFdec (h : Word) : ℕ := field 30 2 h

def ddCbhSaddr (h : Word) : ℕ := field 0 21 h

def ddCblNoat (l : Word) : ℕ := field 0 22 l

/-- The decimation that a filter code stands for: `DD_CBH_DEC_1` and `DD_CBH_DEC_64`. -/
def filterDecimation : ℕ → Option ℕ
  | 0 => some 1
  | 1 => some 64
  | _ => none

/-- Two words decode to a request: to its start, its filter, and the number of atoms before the
decimation. -/
structure Decodes (h l : Word) (start count : ℕ) (dec : Word) : Prop where
  start : ddCbhSaddr h = start
  atoms : ddCblNoat l = count * dec.toNat
  filter : filterDecimation (ddCbhFdec h) = some dec.toNat

/-- What a run of `libera_dd_write_CBfifo` should do: write words that decode to the request, or
refuse it and write nothing. -/
def Encodes (start count : ℕ) (dec : Word) (tr : List DdEvent) (ret : ℤ) : Prop :=
  (ret = 0 ∧ ∃ h l, tr = [⟨.writel .ddCbFifoH h, ()⟩, ⟨.writel .ddCbFifoL l, ()⟩] ∧
    Decodes h l start count dec) ∨ (ret = -eInval ∧ tr = [])

/-! ## The words that are written -/

/-- `cb_FiltDec`. -/
def filtDec (dec : Word) : Word := if 1 < dec then 1 else 0

/-- `cbFIFO_H`. -/
def cbFifoH (start : ℕ) (dec : Word) : Word :=
  (filtDec dec &&& 0x3) <<< 30 ||| BitVec.ofNat 32 start &&& 0x1FFFFF

/-- `cbFIFO_L`. -/
def cbFifoL (count : ℕ) (dec : Word) : Word := BitVec.ofNat 32 count * dec &&& 0x3FFFFF

/-- The product of `libera_dd_write_CBfifo` is above its limit. -/
def Refused (count : ℕ) (dec : Word) : Prop := ddMaxNoatoms < count * dec.toNat % 2 ^ 32

theorem refused_iff : BitVec.ofNat 32 ddMaxNoatoms < BitVec.ofNat 32 count * dec ↔
    Refused count dec := by
  rw [BitVec.lt_def, BitVec.toNat_mul, BitVec.toNat_ofNat, BitVec.toNat_ofNat, Nat.mod_mul_mod]
  rfl

/-- The words of a command, as they are written. -/
def command (start count : ℕ) (dec : Word) : List DdEvent :=
  [⟨.writel .ddCbFifoH (cbFifoH start dec), ()⟩, ⟨.writel .ddCbFifoL (cbFifoL count dec), ()⟩]

/-- The only run of `libera_dd_write_CBfifo`. -/
theorem runs_writeCbFifo {ret : ℤ} : (writeCbFifo start count dec).Runs tr ret ↔
    (Refused count dec ∧ ret = -eInval ∧ tr = []) ∨
      (¬Refused count dec ∧ ret = 0 ∧ tr = command start count dec) := by
  by_cases hrefused : Refused count dec
  · have heq : writeCbFifo start count dec = pure (-eInval) := if_pos (refused_iff.2 hrefused)
    rw [heq, Prog.runs_pure]
    simp [hrefused, and_comm, eq_comm]
  · have heq : writeCbFifo start count dec = (do
        ddcall (.writel .ddCbFifoH (cbFifoH start dec))
        ddcall (.writel .ddCbFifoL (cbFifoL count dec))
        pure 0) := if_neg (refused_iff.not.2 hrefused)
    rw [heq]
    constructor
    · rintro ⟨_, _, rfl, _, _, rfl, rfl, rfl⟩
      exact .inr ⟨hrefused, rfl, rfl⟩
    · rintro (h | ⟨_, rfl, rfl⟩)
      · exact absurd h.1 hrefused
      · exact ⟨_, _, rfl, _, _, rfl, rfl, rfl⟩

/-! ## Decoding -/

theorem toNat_filtDec : (filtDec dec).toNat = if 1 < dec.toNat then 1 else 0 := by
  have hlt : 1 < dec ↔ 1 < dec.toNat := BitVec.lt_def
  rw [filtDec]
  split
  · next h => rw [if_pos (hlt.1 h)]; rfl
  · next h => rw [if_neg (hlt.not.1 h)]; rfl

theorem toNat_filtDec_lt : (filtDec dec).toNat < 2 := by
  rw [toNat_filtDec]
  split <;> decide

theorem toNat_cbFifoH (h : start < ddCircbufAtoms) :
    (cbFifoH start dec).toNat = (filtDec dec).toNat * 2 ^ 30 + start := by
  have hstart : start < 2 ^ 21 := h
  have hfilter : (filtDec dec).toNat < 2 := toNat_filtDec_lt
  have hfield : (filtDec dec &&& 0x3).toNat = (filtDec dec).toNat := by
    rw [BitVec.toNat_and]
    exact (Nat.and_two_pow_sub_one_eq_mod _ 2).trans (Nat.mod_eq_of_lt (by omega))
  have hlow : (BitVec.ofNat 32 start &&& 0x1FFFFF).toNat = start := by
    rw [and_low, BitVec.toNat_ofNat, ddCircbufAtoms]
    omega
  rw [cbFifoH, BitVec.toNat_or, BitVec.toNat_shiftLeft, hfield, hlow, Nat.mod_eq_of_lt,
    ← Nat.shiftLeft_add_eq_or_of_lt (by omega), Nat.shiftLeft_eq]
  rw [Nat.shiftLeft_eq]
  omega

theorem ddCbhSaddr_cbFifoH (h : start < ddCircbufAtoms) :
    ddCbhSaddr (cbFifoH start dec) = start := by
  have hstart : start < 2 ^ 21 := h
  rw [ddCbhSaddr, field, toNat_cbFifoH h]
  omega

theorem ddCbhFdec_cbFifoH (h : start < ddCircbufAtoms) :
    ddCbhFdec (cbFifoH start dec) = (filtDec dec).toNat := by
  have hstart : start < 2 ^ 21 := h
  have hfilter : (filtDec dec).toNat < 2 := toNat_filtDec_lt
  rw [ddCbhFdec, field, toNat_cbFifoH h]
  omega

theorem ddCblNoat_cbFifoL : ddCblNoat (cbFifoL count dec) = count * dec.toNat % 2 ^ 22 := by
  have hmask : (cbFifoL count dec).toNat = (BitVec.ofNat 32 count * dec).toNat % 2 ^ 22 := by
    rw [cbFifoL, BitVec.toNat_and]
    exact Nat.and_two_pow_sub_one_eq_mod _ 22
  rw [ddCblNoat, field, hmask, BitVec.toNat_mul, BitVec.toNat_ofNat, Nat.mod_mul_mod]
  omega

/-- The filter is that of the decimation for the two decimations that have one. -/
theorem filterDecimation_filtDec :
    filterDecimation (filtDec dec).toNat = some dec.toNat ↔ dec = 1 ∨ dec = 64 := by
  have hone : dec = 1 ↔ dec.toNat = 1 := BitVec.toNat_inj.symm
  have hmany : dec = 64 ↔ dec.toNat = 64 := BitVec.toNat_inj.symm
  rw [toNat_filtDec, hone, hmany]
  split
  · rw [filterDecimation, Option.some_inj]
    omega
  · rw [filterDecimation, Option.some_inj]
    omega

/-- **The encoding of a command.** A request is encoded exactly or refused if and only if its
product, as it is computed, is above the limit, or the product fits the field and the decimation has
a filter. -/
theorem command_encoded_iff (start count : ℕ) (dec : Word) (hstart : start < ddCircbufAtoms) :
    (∀ tr ret, (writeCbFifo start count dec).Runs tr ret → Encodes start count dec tr ret) ↔
      Refused count dec ∨ (count * dec.toNat < 2 ^ 22 ∧ (dec = 1 ∨ dec = 64)) := by
  constructor
  · intro h
    refine or_iff_not_imp_left.2 fun hrefused => ?_
    have hruns : (writeCbFifo start count dec).Runs (command start count dec) 0 :=
      runs_writeCbFifo.2 (.inr ⟨hrefused, rfl, rfl⟩)
    obtain ⟨_, _, _, htr, hdecodes⟩ | ⟨-, htr⟩ := h _ _ hruns
    · cases htr
      have hatoms := hdecodes.atoms
      have hfilter := hdecodes.filter
      rw [ddCblNoat_cbFifoL] at hatoms
      rw [ddCbhFdec_cbFifoH hstart, filterDecimation_filtDec] at hfilter
      exact ⟨by omega, hfilter⟩
    · cases htr
  · rintro h tr ret hruns
    obtain ⟨-, rfl, rfl⟩ | ⟨hrefused, rfl, rfl⟩ := runs_writeCbFifo.1 hruns
    · exact .inr ⟨rfl, rfl⟩
    · obtain ⟨hatoms, hfilter⟩ := h.resolve_left hrefused
      refine .inl ⟨rfl, _, _, rfl, ddCbhSaddr_cbFifoH hstart, ?_, ?_⟩
      · rw [ddCblNoat_cbFifoL, Nat.mod_eq_of_lt hatoms]
      · rw [ddCbhFdec_cbFifoH hstart, filterDecimation_filtDec]
        exact hfilter

/-- The longest read is one more atom than the field holds: it is accepted and asks for none. -/
theorem longest_read_lost : ¬∀ (start count : ℕ) (dec : Word), start < ddCircbufAtoms →
    count < 2 ^ 32 → dec ≠ 0 → ∀ tr ret, (writeCbFifo start count dec).Runs tr ret →
      Encodes start count dec tr ret := by
  intro h
  have hruns : (writeCbFifo 0 ddMaxNoatoms 1).Runs (command 0 ddMaxNoatoms 1) 0 :=
    runs_writeCbFifo.2 (.inr ⟨by rw [Refused]; decide, rfl, rfl⟩)
  obtain ⟨_, _, _, htr, hdecodes⟩ | ⟨hret, -⟩ :=
    h 0 ddMaxNoatoms 1 (by decide) (by decide) (by decide) _ _ hruns
  · cases htr
    exact absurd hdecodes.atoms (by decide)
  · cases hret

/-- A read of 1000 atoms with the decimation by 64. -/
theorem command_encoded_thousand :
    (∀ tr ret, (writeCbFifo 5 1000 64).Runs tr ret → Encodes 5 1000 64 tr ret) ↔
      Refused 1000 64 ∨ (1000 * (64 : Word).toNat < 2 ^ 22 ∧ ((64 : Word) = 1 ∨ (64 : Word) = 64)) :=
  command_encoded_iff 5 1000 64 (by decide)

/-! ## The post mortem data -/

/-- The code of a transfer that failed. -/
def TransferError.ret : TransferError → ℤ
  | .restartSys => -eRestartSys
  | .fault => -eFault
  | .io => -eIo

/-- `LMTstart` of `libera_acq_pm`. -/
def Clocks.pmStart (g : Clocks) (lmt : HwTime) (pmOffset pmsize : Word) : HwTime :=
  lmt + ((pmOffset - pmsize) * g.d).signExtend 64

/-- The request of `libera_acq_pm` for a start, and the transfer. -/
def pmRequest (g : Clocks) (ctime : LTimestamp) (start : HwTime) (pmDec pmsize : Word)
    (turns : ℕ) : DdProg ℤ := do
  let (ret, _) ← waitClock g .lmt ctime start turns
  if ret ≠ 0 then pure ret
  else do
    let ret ← writeCbFifo (g.getCircOffsetLmt start) pmsize.toNat pmDec
    if ret < 0 then pure ret
    else
      match ← ddcall .waitDdIrq with
      | .error e => pure e.ret
      | .ok _ => do
        let e ← ddcall (.transfer pmsize.toNat)
        ddcall .enableDdInterrupt
        match e.error with
        | some error => pure error.ret
        | none => pure (if e.written < pmsize.toNat then -eIo else 0)

/-- `libera_acq_pm` with the DD device taken, after the last pair of time stamps of POST_MORTEM. -/
def acqPm (g : Clocks) (pmEvent : LTimestamp) (pmOffset pmDec pmsize : Word) (turns : ℕ) :
    DdProg ℤ := do
  match ← ddcall .getCtime with
  | .error e => pure e.ret
  | .ok ctime => pmRequest g ctime (g.pmStart pmEvent.lmt pmOffset pmsize) pmDec pmsize turns

variable {pmEvent : LTimestamp} {lmt : HwTime} {pmOffset pmDec pmsize : Word} {turns : ℕ}

/-- An acquisition that succeeds asked for `pmsize` atoms of the decimation from the start on. -/
theorem acqPm_requests (h : (acqPm g pmEvent pmOffset pmDec pmsize turns).Runs tr 0) :
    ∃ before after, tr = before ++ command (g.getCircOffsetLmt
      (g.pmStart pmEvent.lmt pmOffset pmsize)) pmsize.toNat pmDec ++ after := by
  obtain ⟨e | ctime, tr', rfl, h⟩ := h
  · cases e <;> exact absurd h.2 (by decide)
  · change (pmRequest _ _ _ _ _ _).Runs _ _ at h
    obtain ⟨t₁, t₂, ⟨ret, _⟩, rfl, -, h⟩ := Prog.runs_bind.1 h
    dsimp only at h
    split at h
    · next hret => exact absurd h.2 hret
    · obtain ⟨t₃, t₄, ret, rfl, hwrite, h⟩ := Prog.runs_bind.1 h
      obtain ⟨-, rfl, -⟩ | ⟨-, -, rfl⟩ := runs_writeCbFifo.1 hwrite
      · exact absurd h.2 (by decide)
      · exact ⟨⟨.getCtime, .ok ctime⟩ :: t₁, t₄, by rw [List.append_assoc]; rfl⟩

/-- Every operation on the way to the start gives its exact value. -/
structure Clocks.PmExact (g : Clocks) (lmt : HwTime) (pmOffset pmsize : Word) : Prop where
  size : pmsize.toInt = pmsize.toNat
  cycle : g.d.toInt = g.d.toNat
  difference : (pmOffset - pmsize).toInt = pmOffset.toInt - pmsize.toInt
  product : ((pmOffset - pmsize) * g.d).toInt = (pmOffset - pmsize).toInt * g.d.toInt
  start : ((g.pmStart lmt pmOffset pmsize).toNat : ℤ) =
    lmt.toNat + ((pmOffset - pmsize) * g.d).toInt

/-- `pmsize` atoms of the decimation from the start on end `pmOffset` machine cycles after the
event. -/
def Clocks.PmEnds (g : Clocks) (lmt : HwTime) (pmOffset pmDec pmsize : Word) : Prop :=
  ((g.pmStart lmt pmOffset pmsize).toNat : ℤ) + pmsize.toNat * pmDec.toNat * g.d.toNat =
    lmt.toNat + pmOffset.toInt * g.d.toNat

/-- The operands are in the range of `long`, and so are their difference and its product; the start
is a time. -/
structure Clocks.PmFits (g : Clocks) (lmt : HwTime) (pmOffset pmsize : Word) : Prop where
  size : pmsize.toNat < 2 ^ 31
  cycle : g.d.toNat < 2 ^ 31
  difference : -2 ^ 31 ≤ pmOffset.toInt - pmsize.toNat
  product : -2 ^ 31 ≤ (pmOffset.toInt - pmsize.toNat) * g.d.toNat
  product_lt : (pmOffset.toInt - pmsize.toNat) * g.d.toNat < 2 ^ 31
  start : 0 ≤ lmt.toNat + (pmOffset.toInt - pmsize.toNat) * g.d.toNat
  start_lt : lmt.toNat + (pmOffset.toInt - pmsize.toNat) * g.d.toNat < 2 ^ 64

theorem bmod_word_iff {z : ℤ} : z.bmod (2 ^ 32) = z ↔ -2 ^ 31 ≤ z ∧ z < 2 ^ 31 := by
  rw [Int.bmod_eq_iff (by decide)]
  omega

theorem toInt_word_iff {x : Word} : x.toInt = x.toNat ↔ x.toNat < 2 ^ 31 := by
  rw [BitVec.toInt_eq_toNat_cond]
  split <;> omega

theorem pmStart_iff {p : Word} : ((lmt + p.signExtend 64).toNat : ℤ) = lmt.toNat + p.toInt ↔
    0 ≤ (lmt.toNat : ℤ) + p.toInt ∧ (lmt.toNat : ℤ) + p.toInt < 2 ^ 64 := by
  have hsum : ((lmt + p.signExtend 64).toNat : ℤ) = ((lmt.toNat : ℤ) + p.toInt) % 2 ^ 64 := by
    rw [BitVec.toNat_add, BitVec.signExtend, BitVec.toNat_ofInt]
    omega
  rw [hsum]
  omega

theorem pmExact_iff : g.PmExact lmt pmOffset pmsize ↔ g.PmFits lmt pmOffset pmsize := by
  constructor
  · rintro ⟨hsize, hcycle, hdifference, hproduct, hstart⟩
    rw [Clocks.pmStart, pmStart_iff, hproduct, hdifference, hsize, hcycle] at hstart
    rw [BitVec.toInt_mul, bmod_word_iff, hdifference, hsize, hcycle] at hproduct
    rw [BitVec.toInt_sub, bmod_word_iff, hsize] at hdifference
    exact ⟨toInt_word_iff.1 hsize, toInt_word_iff.1 hcycle, hdifference.1, hproduct.1, hproduct.2,
      hstart.1, hstart.2⟩
  · intro h
    have hsize := toInt_word_iff.2 h.size
    have hcycle := toInt_word_iff.2 h.cycle
    have hdifference : (pmOffset - pmsize).toInt = pmOffset.toInt - pmsize.toInt := by
      have hlt := BitVec.toInt_lt (x := pmOffset)
      rw [BitVec.toInt_sub, bmod_word_iff, hsize]
      exact ⟨h.difference, by omega⟩
    have hproduct : ((pmOffset - pmsize) * g.d).toInt = (pmOffset - pmsize).toInt * g.d.toInt := by
      rw [BitVec.toInt_mul, bmod_word_iff, hdifference, hsize, hcycle]
      exact ⟨h.product, h.product_lt⟩
    refine ⟨hsize, hcycle, hdifference, hproduct, ?_⟩
    rw [Clocks.pmStart, pmStart_iff, hproduct, hdifference, hsize, hcycle]
    exact ⟨h.start, h.start_lt⟩

/-- **The post mortem interval** ends at its event plus the offset, and without overflow, if and
only if the values are in range and the data are not decimated. -/
theorem pm_interval_iff (g : Clocks) (lmt : HwTime) (pmOffset pmDec pmsize : Word) :
    g.PmExact lmt pmOffset pmsize ∧ g.PmEnds lmt pmOffset pmDec pmsize ↔
      g.PmFits lmt pmOffset pmsize ∧ (pmsize = 0 ∨ pmDec = 1) := by
  rw [← pmExact_iff]
  refine and_congr_right fun hexact => ?_
  have hd : (g.d.toNat : ℤ) ≠ 0 := by
    have hpos := g.d_pos
    omega
  have hstart : ((g.pmStart lmt pmOffset pmsize).toNat : ℤ) =
      lmt.toNat + (pmOffset.toInt - pmsize.toNat) * g.d.toNat := by
    rw [hexact.start, hexact.product, hexact.difference, hexact.size, hexact.cycle]
  have hspan : g.PmEnds lmt pmOffset pmDec pmsize ↔
      (pmsize.toNat : ℤ) * (pmDec.toNat - 1) * g.d.toNat = 0 := by
    rw [Clocks.PmEnds, hstart]
    constructor <;> intro h <;> linarith
  have hone : (pmDec.toNat : ℤ) - 1 = 0 ↔ pmDec = 1 := by
    rw [← BitVec.toNat_inj, show (1 : Word).toNat = 1 from rfl]
    omega
  have hzero : (pmsize.toNat : ℤ) = 0 ↔ pmsize = 0 := by
    rw [← BitVec.toNat_inj, show (0 : Word).toNat = 0 from rfl]
    omega
  rw [hspan, mul_eq_zero, mul_eq_zero, hone, hzero]
  exact or_iff_left hd

/-- The last time stamp of POST_MORTEM in the example, far from both ends of the clock. -/
def pmNoon : HwTime := 0x100000000

/-- With the decimation by 64 the initial buffer reaches far past the event. -/
theorem pm_interval_late : ¬∀ (g : Clocks) (lmt : HwTime) (pmOffset pmDec pmsize : Word),
    ebppIsValidpmoffset pmOffset = true → ebppIsValiddecimation pmDec = true →
      g.PmExact lmt pmOffset pmsize ∧ g.PmEnds lmt pmOffset pmDec pmsize := by
  intro h
  have hend := (h fastClocks pmNoon 0 64 16384 (by decide) (by decide)).2
  exact absurd hend (by rw [Clocks.PmEnds]; decide +kernel)

end LiberaDaq.Dd
