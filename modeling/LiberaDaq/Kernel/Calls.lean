import LiberaDaq.Interaction.Environment
import Mathlib.Data.BitVec

/-!
# The calls of the kernel driver

The file operations of the driver run in the context of a process that may sleep, be signalled, fail
to read or write the memory of the user, and meet other processes and the interrupt handlers at the
devices. What an operation learns of all that are the answers of its calls: to the mutexes, to the
memory of the user, to the scheduler, to the registers, and to the data of the devices, which others
change at any time.

The functions of the driver that touch no mutex and only compute or move data (the conversions of
the times, the command to the FPGA, the transfer by DMA) are calls too, answered by what they
return.
-/

namespace LiberaDaq.Kernel

open LiberaDaq.Interaction

/-! ## Error numbers -/

def ePerm : ℤ := 1
def eAgain : ℤ := 11
def eNoMem : ℤ := 12
def eAcces : ℤ := 13
def eFault : ℤ := 14
def eBusy : ℤ := 16
def eNoDev : ℤ := 19
def eInval : ℤ := 22
def eNoTty : ℤ := 25
def eSPipe : ℤ := 29
def eNoSys : ℤ := 38
def eIo : ℤ := 5
def eNoData : ℤ := 61
def eRestartSys : ℤ := 512

/-! ## ioctl commands -/

/-- The command of an `ioctl()`. -/
abbrev Command := BitVec 32

/-- `_IOC_WRITE` and `_IOC_READ`. -/
def iocWrite : ℕ := 1

def iocRead : ℕ := 2

/-- `_IOC`. -/
def ioc (dir type nr size : ℕ) : Command :=
  BitVec.ofNat 32 (dir * 2 ^ 30 + size * 2 ^ 16 + type * 2 ^ 8 + nr)

/-- `_IOC_DIR`. -/
def iocDir (cmd : Command) : ℕ := cmd.toNat / 2 ^ 30

/-- `_IOC_TYPE`. -/
def iocType (cmd : Command) : ℕ := cmd.toNat / 2 ^ 8 % 2 ^ 8

/-- `_IOC_NR`. -/
def iocNr (cmd : Command) : ℕ := cmd.toNat % 2 ^ 8

/-- `LIBERA_IOC_MAGIC`, which is `'l'`, and `LIBERA_EVENT_MAGIC`, which is `'e'`. -/
def liberaIocMagic : ℕ := 108

def liberaEventMagic : ℕ := 101

/-- `LIBERA_IOC_MASK`, `LIBERA_IOC_DD` and `LIBERA_IOC_PM`. -/
def liberaIocMask : ℕ := 0xE0

def liberaIocDd : ℕ := 96

def liberaIocPm : ℕ := 128

/-- The sizes of `libera_U32_t`, `libera_hw_time_t`, `struct timespec`, `libera_timestamp_t`,
`libera_Ltimestamp_t`, `libera_HRtimestamp_t` and `libera_event_t`. -/
def u32Size : ℕ := 4

def hwTimeSize : ℕ := 8

def timespecSize : ℕ := 8

def timestampSize : ℕ := 16

def lTimestampSize : ℕ := 16

def hrTimestampSize : ℕ := 20

def eventSize : ℕ := 8

/-- The sizes of `libera_atom_dd_t` and `libera_atom_adc_t`. -/
def ddAtomSize : ℕ := 32

def adcAtomSize : ℕ := 8

/-! ## What the operations work on -/

/-- The devices. -/
inductive Device
  | dd | pm | adc | event
  deriving DecidableEq, Repr

/-- The mutexes: `sem` of each device, and `CTIME_sem`. -/
inductive Mutex
  | sem (d : Device)
  | ctime
  deriving DecidableEq, Repr

/-- The queues: the time stamps of the SC and of the MC triggers, the interrupts of the DD device,
and the events. -/
inductive Queue
  | sc (i : ℕ) | mc (i : ℕ) | ddIrq | events
  deriving DecidableEq, Repr

/-- The numbers among the data of the devices, of the open file and of the module. `startLst` and
`startLmt` are the start of the requested interval, `userTime` is the same in MT, and `settimeLst`
and `settimeLmt` are the times to be set with the next trigger. -/
inductive Field
  | readers (d : Device) | writers (d : Device) | openCount (d : Device)
  | dec | request | startLst | startLmt | userTime | trigOffset
  | settimeLst | settimeLmt | settimeUpdate | mcphi | scphi
  | flmcdHz | lgblD | pmsize | pmEntry | pmOffset | pmDec | trigMode | dmaWritten
  deriving DecidableEq, Repr

/-- The words among these data: the vectors of the triggers, of the device and of the open file, the
mask of the events, that of the interrupts, and the states of the PLLs. -/
inductive Vector
  | scTrigVec | mcTrigVec | localScTrigVec | localMcTrigVec | eventMask | irqMask | mcPll | scPll
  deriving DecidableEq, Repr

/-- The registers that are accessed by name. -/
inductive Register
  | eventMcDac | eventScDac | scTriggerMask | mcTriggerMask | scEventgen | ddcNco | faiSwStatus
  | faiCounterReset | ddCbFifoReset | adcChanCd (i : ℕ) | adcChanAb (i : ℕ) | sbcIrqMask
  deriving DecidableEq, Repr

/-- Who opened the device first for what only one may do, `dev->master_filp`. -/
inductive Owner
  | none | self | other
  deriving DecidableEq, Repr

/-- The functions of the driver that touch no mutex: the conversions between LST and LMT (which can
fail), the command to the circular buffer, and the transfer of atoms to the user or into the PM
buffer. -/
inductive Helper
  | lst2lmt | lmt2lst | writeCbFifo (atoms : ℕ) (dec : ℤ) | transferObFifo (atoms : ℕ)
  | readObFifo (atoms : ℕ)
  deriving DecidableEq, Repr

/-! ## Calls -/

/-- The calls of a file operation. `forever` is a loop that is not left. -/
inductive KCall
  | mutexLock (m : Mutex)
  | mutexLockInterruptible (m : Mutex)
  | mutexTrylock (m : Mutex)
  | mutexUnlock (m : Mutex)
  | accessOk (size : ℕ)
  | copyToUser (size : ℕ)
  | copyFromUser (size : ℕ)
  | putUser (x : ℤ)
  | kmalloc
  | signalPending
  | schedule
  | scheduleTimeout (timeout : ℕ)
  | delayInterruptible (jiffies : ℤ)
  | load (f : Field)
  | store (f : Field) (x : ℤ)
  | loadVector (v : Vector)
  | storeVector (v : Vector) (x : BitVec 32)
  | master (d : Device)
  | setMaster (d : Device) (o : Owner)
  | emptyFifo (q : Queue)
  | lenFifo (q : Queue)
  | getFromFifo (q : Queue)
  | flushFifo (q : Queue)
  | lastTrigger (trigger : ℕ)
  | readl (r : Register)
  | writel (r : Register) (x : BitVec 32)
  | adcOp
  | helper (f : Helper)
  | sendEvent (id param : ℤ)
  | wakeDma
  | forever
  deriving DecidableEq, Repr

/-- What a call gives back. The copies give the number of bytes that were not copied, that from the
user also the value then in the variable; `schedule_timeout` gives the rest of the timeout;
`adcOp` is the operator of the ADC, if there is one. -/
abbrev KAns : KCall → Type
  | .mutexLockInterruptible _ | .mutexTrylock _ => Bool
  | .accessOk _ | .kmalloc | .signalPending | .emptyFifo _ => Bool
  | .copyToUser _ | .scheduleTimeout _ | .lenFifo _ => ℕ
  | .copyFromUser _ => ℕ × ℕ
  | .putUser _ | .delayInterruptible _ | .load _ | .helper _ | .sendEvent _ _ => ℤ
  | .loadVector _ | .readl _ => BitVec 32
  | .master _ => Owner
  | .getFromFifo _ => Option ℤ
  | .lastTrigger _ => ℤ × ℤ
  | .adcOp => Option ℤ
  | .forever => Empty
  | _ => Unit

/-- A function of the driver. -/
abbrev KProg (α : Type) := Prog KCall KAns α

/-- A call with its answer. -/
abbrev KEvent := Event KCall KAns

/-- A call. -/
abbrev kcall (c : KCall) : KProg (KAns c) := Prog.perform c

/-- A loop that is not left. -/
def forever {α : Type} : KProg α := .call .forever fun e => Empty.elim e

/-- `mutex_lock_interruptible`, which fails when the process is signalled before it gets the
mutex. -/
def mutexLockInterruptible (m : Mutex) : KProg Bool := kcall (.mutexLockInterruptible m)

/-- `mutex_trylock`, which succeeds when the mutex is free. -/
def mutexTrylock (m : Mutex) : KProg Bool := kcall (.mutexTrylock m)

/-- A field that is counted up or down. -/
def addTo (f : Field) (x : ℤ) : KProg Unit := do
  let y ← kcall (.load f)
  kcall (.store f (y + x))

/-- `set_irqMask((get_irqMask() | LIBERA_INTERRUPT_DD_MASK))`. -/
def enableDdInterrupt : KProg Unit := do
  let mask ← kcall (.loadVector .irqMask)
  kcall (.storeVector .irqMask (mask ||| 0x20))
  kcall (.writel .sbcIrqMask (mask ||| 0x20))

end LiberaDaq.Kernel
