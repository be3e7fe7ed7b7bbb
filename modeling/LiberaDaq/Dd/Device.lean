import LiberaDaq.Dd.Times
import LiberaDaq.Kernel.Calls

/-!
# The DD device

An open file of the DD device keeps the request that `lseek()` made and the decimation. A read waits
for the data, writes a command with the position to the FPGA, waits for its interrupt, and transfers
the atoms. The request of the next read then is the machine time after these atoms. The functions
are `libera_dd_llseek_specific`, `libera_dd_read_specific` with `wait_lst`, `wait_lmt` and
`libera_dd_write_CBfifo` (`ebpp.c`), and `libera_dd_ioctl` (`libera_dd.c`).

The current time, the waits, the transfer and the registers are calls; the locks inside of them are
not seen here.
-/

namespace LiberaDaq.Dd

open LiberaDaq.Cspi LiberaDaq.Interaction
open LiberaDaq.Kernel (eInval eAgain eFault eNoData eRestartSys eIo ddAtomSize)

/-! ## The open file -/

/-- `enum dd_time_t`. -/
inductive Request
  | implicit | explicitSt | explicitMt
  deriving DecidableEq, Repr

/-- `libera_dd_local_t`, with the members of `libera_Qtimestamp_t` that are used. No file has the
decimation `0`. -/
structure DdLocal where
  dec : Word
  dec_ne : dec ≠ 0
  request : Request
  user : UTimestamp
  l : LTimestamp
  trigOffset : HwTime
  tstamp : UTimestamp

/-- `libera_dd_open`. -/
def DdLocal.opened : DdLocal where
  dec := 1
  dec_ne := by decide
  request := .implicit
  user := ⟨⟨0, 0⟩, 0⟩
  l := ⟨0, 0⟩
  trigOffset := 0
  tstamp := ⟨⟨0, 0⟩, 0⟩

/-! ## Calls -/

/-- How a wait fails. -/
inductive WaitError
  | restartSys | fault
  deriving DecidableEq, Repr

/-- The code of a wait that failed. -/
def WaitError.ret : WaitError → ℤ
  | .restartSys => -eRestartSys
  | .fault => -eFault

/-- How a transfer fails: on a signal or for post mortem data, in the memory of the user or for a
wrong number of atoms, or without data. -/
inductive TransferError
  | restartSys | fault | io
  deriving DecidableEq, Repr

/-- How a transfer of a number of atoms ended, with `dma->written`. -/
structure TransferEnd (atoms : ℕ) where
  error : Option TransferError
  written : ℕ
  le : written ≤ atoms

/-- The registers that are written. -/
inductive DdRegister
  | ddCbFifoH | ddCbFifoL | ddCbFifoReset
  deriving DecidableEq, Repr

/-- The calls of the DD device: its mutex, `libera_get_CTIME`, the delay, the last pair of time
stamps of TRIGGER, the registers, the wait for the DD interrupt, the transfer of atoms to the user,
and the value that a user gives. `forever` is a wait that does not end. -/
inductive DdCall
  | mutexLockInterruptible
  | mutexUnlock
  | getCtime
  | delay (jiffies : Word)
  | lastTrigger
  | writel (r : DdRegister) (x : Word)
  | waitDdIrq
  | transfer (atoms : ℕ)
  | enableDdInterrupt
  | copyFromUser
  | forever
  deriving DecidableEq, Repr

/-- What a call gives back. `mutex_lock_interruptible` says whether it was interrupted, and
`copy_from_user` gives the number of bytes that were not copied and the value then in the
variable. -/
abbrev DdAns : DdCall → Type
  | .mutexLockInterruptible => Bool
  | .getCtime => Except WaitError LTimestamp
  | .lastTrigger => LTimestamp
  | .waitDdIrq => Except WaitError Unit
  | .transfer atoms => TransferEnd atoms
  | .copyFromUser => ℕ × Word
  | .forever => Empty
  | _ => Unit

/-- A function of the device. -/
abbrev DdProg (α : Type) := Prog DdCall DdAns α

/-- A call with its answer. -/
abbrev DdEvent := Event DdCall DdAns

/-- A call. -/
abbrev ddcall (c : DdCall) : DdProg (DdAns c) := Prog.perform c

/-- A wait that does not end. -/
def forever {α : Type} : DdProg α := .call .forever fun e => Empty.elim e

/-! ## Seeking -/

/-- `libera_dd_llseek_specific`. A time of `0` stands for now. -/
def DdLocal.llseek (q : DdLocal) (g : Clocks) (time : HwTime) (whence : ℕ) :
    DdProg (ℤ × DdLocal) :=
  match whence with
  | 0 =>
    if time = 0 then do
      match ← ddcall .getCtime with
      | .error e => pure (e.ret, { q with request := .explicitSt })
      | .ok ctime =>
        pure (0, { q with request := .explicitSt, l.lst := ctime.lst, user.st := lst2st ctime.lst })
    else
      let st : Timespec := ⟨time.setWidth 32, (time >>> 32).setWidth 32⟩
      pure (0, { q with request := .explicitSt, user.st := st, l.lst := st2lst st })
  | 1 =>
    if time = 0 then do
      match ← ddcall .getCtime with
      | .error e => pure (e.ret, { q with request := .explicitMt })
      | .ok ctime =>
        pure (0, { q with
          request := .explicitMt, l.lmt := ctime.lmt, user.mt := g.lmt2mt ctime.lmt })
    else pure (0, { q with request := .explicitMt, user.mt := time, l.lmt := g.mt2lmt time })
  | 2 => pure (0, { q with request := .implicit, trigOffset := time })
  | _ => pure (-eInval, q)

/-! ## Waiting for the data -/

/-- `LIBERA_DD_READSYNC_MARGIN` and `LIBERA_DD_MAX_INADVANCE`, in atoms, and `HZ`. -/
def ddReadsyncMargin : Word := 64

def ddMaxInadvance : Word := 10485760

def hz : Word := 100

/-- The latest that a start can be past: the length of the buffer without
`LIBERA_DD_CIRCBUF_SAFE`. -/
def Clocks.latest (g : Clocks) : Word :=
  BitVec.ofNat 32 ddCircbufAtoms * g.d - BitVec.ofNat 32 ddCircbufAtoms * g.d / 10

/-- The clock in which a start is given: `wait_lst` and `wait_lmt` differ in it alone. -/
inductive Clock
  | lst | lmt
  deriving DecidableEq, Repr

def Clock.read : Clock → LTimestamp → HwTime
  | .lst, t => t.lst
  | .lmt, t => t.lmt

/-- The jiffies to sleep for a delay in that clock. -/
def Clock.jiffies (g : Clocks) : Clock → HwTime → HwTime
  | .lst, delay => divU64 (delay * wide hz) lscFreq + 1
  | .lmt, delay => divU64 (delay * wide flmcDeciHz * wide hz) g.flmcdHz + 1

/-- The time since the end of the margin after the start, a signed number. -/
def Clocks.deltaEnd (g : Clocks) (now start : HwTime) : HwTime :=
  now - start - wide (ddReadsyncMargin * g.d)

/-- The loop of `wait_lst` and `wait_lmt`. -/
def sleepUntil (g : Clocks) (clock : Clock) (start : HwTime) :
    HwTime → ℕ → DdProg (ℤ × LTimestamp)
  | _, 0 => forever
  | delta, turns + 1 => do
    ddcall (.delay ((clock.jiffies g (-delta)).setWidth 32))
    match ← ddcall .getCtime with
    | .error e => pure (e.ret, ⟨0, 0⟩)
    | .ok ctime =>
      let delta := g.deltaEnd (clock.read ctime) start
      if delta.toInt < 0 then sleepUntil g clock start delta turns else pure (0, ctime)

/-- `wait_lst` and `wait_lmt`, with the time that they leave. -/
def waitClock (g : Clocks) (clock : Clock) (ctime : LTimestamp) (start : HwTime) (turns : ℕ) :
    DdProg (ℤ × LTimestamp) :=
  if (g.latest.toNat : ℤ) < (clock.read ctime - start).toInt then pure (-eNoData, ctime)
  else
    let delta := g.deltaEnd (clock.read ctime) start
    if delta.toInt < 0 then
      if ((ddMaxInadvance * g.d).toNat : ℤ) < (-delta).toInt then pure (-eAgain, ctime)
      else sleepUntil g clock start delta turns
    else pure (0, ctime)

/-! ## Reading -/

/-- `ERANGE`. -/
def eRange : ℤ := 34

/-- `LIBERA_DD_MAX_INTERVAL` and `DD_MAX_NOATOMS`. -/
def ddMaxNoatoms : ℕ := 0x400000

/-- `libera_dd_write_CBfifo`. -/
def writeCbFifo (startAddr noAtoms : ℕ) (decimation : Word) : DdProg ℤ :=
  let filtDec : Word := if 1 < decimation then 1 else 0
  let noAtoms : Word := BitVec.ofNat 32 noAtoms * decimation
  if BitVec.ofNat 32 ddMaxNoatoms < noAtoms then pure (-eInval)
  else do
    ddcall (.writel .ddCbFifoH ((filtDec &&& 0x3) <<< 30 ||| BitVec.ofNat 32 startAddr &&&
      0x1FFFFF))
    ddcall (.writel .ddCbFifoL (noAtoms &&& 0x3FFFFF))
    pure 0

/-- The start of the interval, and the wait for it. A request in ST or MT is awaited in its own
clock first, that after a trigger when it is converted. The request itself is not changed. -/
def DdLocal.await (q : DdLocal) (g : Clocks) (ctime : LTimestamp) (turns : ℕ) :
    DdProg (ℤ × DdLocal) :=
  match q.request with
  | .explicitSt => do
    let (ret, ctime) ← waitClock g .lst ctime q.l.lst turns
    if ret ≠ 0 then pure (ret, q)
    else
      match g.lst2lmt q.l.lst ctime with
      | none => pure (-eRange, q)
      | some lmt => pure (0, { q with l.lmt := lmt, user.mt := g.lmt2mt lmt })
  | .explicitMt => do
    let (ret, ctime) ← waitClock g .lmt ctime q.l.lmt turns
    if ret ≠ 0 then pure (ret, q)
    else
      match g.lmt2lst q.l.lmt ctime with
      | none => pure (-eRange, q)
      | some lst => pure (0, { q with l.lst := lst, user.st := lst2st lst })
  | .implicit => do
    let trigger ← ddcall .lastTrigger
    let lmt := trigger.lmt + q.trigOffset * wide g.d
    match g.lmt2lst lmt trigger with
    | none => pure (-eRange, { q with l := ⟨trigger.lst, lmt⟩ })
    | some lst => do
      let (ret, _) ← waitClock g .lmt ctime lmt turns
      pure (ret, { q with l := ⟨lst, lmt⟩, user := ⟨lst2st lst, g.lmt2mt lmt⟩ })

/-- The label `out_zero` of `libera_dd_read_specific`. -/
def DdLocal.continueAfter (q : DdLocal) (g : Clocks) (atoms : ℕ) : DdLocal :=
  let mt := q.user.mt + wide (BitVec.ofNat 32 atoms * q.dec)
  { q with request := .explicitMt, user.mt := mt, l.lmt := g.mt2lmt mt }

/-- What follows the wait for the data: the command to the FPGA and the transfer. -/
def DdLocal.transfer (q : DdLocal) (g : Clocks) (atoms : ℕ) : DdProg (ℤ × DdLocal) := do
  let ret ← writeCbFifo (g.getCircOffsetLmt q.l.lmt) atoms q.dec
  if ret < 0 then pure (ret, q)
  else
    match ← ddcall .waitDdIrq with
    -- the code of an interrupted wait is not passed on
    | .error _ => pure (0, q)
    | .ok _ => do
      let e ← ddcall (.transfer atoms)
      if e.error.isSome then do
        ddcall (.writel .ddCbFifoReset 0)
        pure ((e.written * ddAtomSize : ℕ), q)
      else pure ((e.written * ddAtomSize : ℕ), q.continueAfter g e.written)

/-- The part of `libera_dd_read_specific` that reads a number of atoms. -/
def DdLocal.readAtoms (q : DdLocal) (g : Clocks) (atoms turns : ℕ) : DdProg (ℤ × DdLocal) := do
  match ← ddcall .getCtime with
  | .error e => pure (e.ret, q)
  | .ok ctime => do
    let (ret, q) ← q.await g ctime turns
    if ret ≠ 0 then pure (ret, q)
    else DdLocal.transfer { q with tstamp := q.user } g atoms

/-- What `libera_dd_read_specific` does with the device taken. -/
def DdLocal.readLocked (q : DdLocal) (g : Clocks) (count turns : ℕ) : DdProg (ℤ × DdLocal) :=
  if count > ddMaxNoatoms * ddAtomSize then pure (-eInval, q)
  else if count % ddAtomSize ≠ 0 then pure (-eInval, q)
  else if count / ddAtomSize = 0 then pure (0, q.continueAfter g 0)
  else q.readAtoms g (count / ddAtomSize) turns

/-- `libera_dd_read_specific`. -/
def DdLocal.read (q : DdLocal) (g : Clocks) (count turns : ℕ) : DdProg (ℤ × DdLocal) := do
  let interrupted ← ddcall .mutexLockInterruptible
  if interrupted then pure (-eRestartSys, q)
  else do
    let out ← q.readLocked g count turns
    ddcall .enableDdInterrupt
    ddcall .mutexUnlock
    pure out

/-! ## The decimation -/

/-- `LIBERA_IOC_SET_DEC`, of `libera_dd_ioctl`. -/
def DdLocal.setDec (q : DdLocal) : DdProg (ℤ × DdLocal) := do
  let interrupted ← ddcall .mutexLockInterruptible
  if interrupted then pure (-eRestartSys, q)
  else do
    let (left, newDec) ← ddcall .copyFromUser
    ddcall .mutexUnlock
    if h : newDec ≠ 0 then pure (left, { q with dec := newDec, dec_ne := h })
    else pure (-eInval, q)

/-- What a process does with an open file. -/
inductive DdOp
  | llseek (time : HwTime) (whence : ℕ)
  | read (count : ℕ)
  | setDec
  deriving DecidableEq, Repr

/-- One operation on the file. -/
def ddStep (g : Clocks) (turns : ℕ) : DdOp → DdLocal → DdProg (ℤ × DdLocal)
  | .llseek time whence, q => q.llseek g time whence
  | .read count, q => q.read g count turns
  | .setDec, q => q.setDec

/-- An operation with what was answered. -/
abbrev DdMove := Move DdOp ℤ DdLocal DdEvent

end LiberaDaq.Dd
