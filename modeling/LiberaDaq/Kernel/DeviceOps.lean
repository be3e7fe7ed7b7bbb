import LiberaDaq.Kernel.Waits

/-!
# The DD, PM and ADC devices

The file operations of `libera_dd.c`, `libera_pm.c` and `libera_adc.c`, with those of the DD device
that are specific to the EBPP (`ebpp.c`).
-/

namespace LiberaDaq.Kernel

open LiberaDaq.Interaction

/-- The access that a file is opened with. -/
structure FMode where
  read : Bool
  write : Bool

/-! ## Opening and closing -/

/-- The open count of a device, and its readers, after a file was opened or closed. -/
def countReader (d : Device) (x : ℤ) : KProg Unit := do
  addTo (.openCount d) x
  addTo (.readers d) x

/-- `libera_dd_open`, where `dev` says that the file has a device. -/
def liberaDdOpen (dev : Bool) (mode : FMode) : KProg ℤ :=
  if !dev then pure (-eNoDev)
  else do
    kcall (.mutexLock (.sem .dd))
    if mode.write then do
      kcall (.mutexUnlock (.sem .dd))
      pure (-eAcces)
    else do
      addTo (.readers .dd) 1
      let allocated : Bool ← kcall .kmalloc
      if allocated then do
        kcall (.store .request 0)
        kcall (.store .dec 1)
        addTo (.openCount .dd) 1
        kcall (.mutexUnlock (.sem .dd))
        pure 0
      else do
        kcall (.mutexUnlock (.sem .dd))
        pure (-eNoMem)

/-- `libera_dd_release`. -/
def liberaDdRelease : KProg ℤ := do
  countReader .dd (-1)
  pure 0

/-- `libera_pm_open` and `libera_adc_open`, which differ in the device alone. -/
def openReader (d : Device) (dev : Bool) (mode : FMode) : KProg ℤ :=
  if !dev then pure (-eNoDev)
  else do
    kcall (.mutexLock (.sem d))
    if mode.write then do
      kcall (.mutexUnlock (.sem d))
      pure (-eAcces)
    else do
      let master : Owner ← kcall (.master d)
      if master = .none then kcall (.setMaster d .self)
      addTo (.readers d) 1
      addTo (.openCount d) 1
      kcall (.mutexUnlock (.sem d))
      pure 0

/-- `libera_pm_release` and `libera_adc_release`. -/
def releaseReader (d : Device) : KProg ℤ := do
  countReader d (-1)
  let readers : ℤ ← kcall (.load (.readers d))
  if readers = 0 then kcall (.setMaster d .none)
  pure 0

/-- `libera_pm_open`. -/
def liberaPmOpen (dev : Bool) (mode : FMode) : KProg ℤ := openReader .pm dev mode

/-- `libera_adc_open`. -/
def liberaAdcOpen (dev : Bool) (mode : FMode) : KProg ℤ := openReader .adc dev mode

/-- `libera_pm_release`. -/
def liberaPmRelease : KProg ℤ := releaseReader .pm

/-- `libera_adc_release`. -/
def liberaAdcRelease : KProg ℤ := releaseReader .adc

/-! ## Seeking -/

/-- `libera_llseek`. -/
def liberaLlseek : KProg ℤ := pure (-eSPipe)

/-- `LIBERA_DD_TIME_IMPLICIT`, `LIBERA_DD_TIME_EXPLICIT_ST` and `LIBERA_DD_TIME_EXPLICIT_MT`. -/
def ddTimeImplicit : ℤ := 0

def ddTimeExplicitSt : ℤ := 1

def ddTimeExplicitMt : ℤ := 2

/-- `lmt2mt`, of the start of the interval. -/
def lmt2mt : KProg Unit := do
  let lmt : ℤ ← kcall (.load .startLmt)
  let d : ℤ ← kcall (.load .lgblD)
  kcall (.store .userTime (lmt / d))

/-- `st2lst`, of a `struct timespec` in 64 bits, and `mt2lmt`. -/
def Clock.ofUser : Clock → ℤ → KProg ℤ
  | .lst, time => pure (time % 2 ^ 32 * lscFreq + time / 2 ^ 32 * lscFreq / 10 ^ 9)
  | .lmt, time => do
    let d : ℤ ← kcall (.load .lgblD)
    pure (time * d)

/-- The start of an interval given explicitly, in one of the clocks; a time of `0` stands for
now. -/
def seekClock (clock : Clock) (request time : ℤ) (turns : ℕ) : KProg ℤ := do
  kcall (.store .request request)
  if time = 0 then do
    let (ret, ctime) ← liberaGetCTIME turns
    if ret ≠ 0 then pure ret
    else do
      kcall (.store clock.start (clock.read ctime))
      if clock = .lmt then lmt2mt
      pure 0
  else do
    if clock = .lmt then kcall (.store .userTime time)
    let start ← clock.ofUser time
    kcall (.store clock.start start)
    pure 0

/-- `libera_dd_llseek_specific`. -/
def liberaDdLlseek (time : ℤ) (whence : ℕ) (turns : ℕ) : KProg ℤ :=
  match whence with
  | 0 => seekClock .lst ddTimeExplicitSt time turns
  | 1 => seekClock .lmt ddTimeExplicitMt time turns
  | 2 => do
    kcall (.store .request ddTimeImplicit)
    kcall (.store .trigOffset time)
    pure 0
  | _ => pure (-eInval)

/-- `libera_adc_llseek`. -/
def liberaAdcLlseek (whence : ℕ) : KProg ℤ := pure (if whence ≤ 2 then 0 else -eInval)

/-! ## Reading from the DD device -/

/-- `LIBERA_DD_MAX_INTERVAL`, in atoms. -/
def ddMaxInterval : ℕ := 0x400000

/-- The wait for an interval that is requested explicitly in one of the clocks, and the conversion
to the other one. -/
def awaitExplicit (clock : Clock) (request : ℤ) (convert : Helper) (ctime : Ctime) (turns : ℕ) :
    KProg ℤ := do
  let asked : ℤ ← kcall (.load .request)
  if asked = request then do
    let ret ← waitClock clock ctime turns
    if ret ≠ 0 then pure ret
    else do
      let ret : ℤ ← kcall (.helper convert)
      if ret = 0 ∧ clock = .lst then lmt2mt
      pure ret
  else pure 0

/-- The wait for an interval that is given by the last trigger. -/
def awaitImplicit (ctime : Ctime) (turns : ℕ) : KProg ℤ := do
  let asked : ℤ ← kcall (.load .request)
  if asked = ddTimeImplicit then do
    let trigger : ℤ × ℤ ← kcall (.lastTrigger trigTrigger)
    let offset : ℤ ← kcall (.load .trigOffset)
    let d : ℤ ← kcall (.load .lgblD)
    kcall (.store .startLmt (trigger.2 + offset * d))
    kcall (.store .startLst trigger.1)
    let ret : ℤ ← kcall (.helper .lmt2lst)
    if ret ≠ 0 then pure ret
    else do
      lmt2mt
      waitLmt ctime turns
  else pure 0

/-- The waits of `libera_dd_read_specific`, one after the other; the first that fails gives the
code. -/
def awaitInterval (turns : ℕ) : KProg ℤ := do
  let (ret, ctime) ← liberaGetCTIME turns
  if ret ≠ 0 then pure ret
  else do
    let ret ← awaitExplicit .lst ddTimeExplicitSt .lst2lmt ctime turns
    if ret ≠ 0 then pure ret
    else do
      let ret ← awaitExplicit .lmt ddTimeExplicitMt .lmt2lst ctime turns
      if ret ≠ 0 then pure ret else awaitImplicit ctime turns

/-- The label `out_zero` of `libera_dd_read_specific`: the next request continues after the atoms
that were read. -/
def continueAfter (atoms : ℤ) : KProg Unit := do
  kcall (.store .request ddTimeExplicitMt)
  let dec : ℤ ← kcall (.load .dec)
  addTo .userTime (atoms * dec)
  let mt : ℤ ← kcall (.load .userTime)
  let d : ℤ ← kcall (.load .lgblD)
  kcall (.store .startLmt (mt * d))

/-- The part of `libera_dd_read_specific` that reads a number of atoms. -/
def ddReadAtoms (atoms turns : ℕ) : KProg ℤ := do
  let ret ← awaitInterval turns
  if ret ≠ 0 then pure ret
  else do
    let dec : ℤ ← kcall (.load .dec)
    let ret : ℤ ← kcall (.helper (.writeCbFifo atoms dec))
    if ret < 0 then pure ret
    else do
      -- the code of an interrupted wait is not passed on
      let (irq, _) ← getBlockedFromFIFO .ddIrq turns
      if irq ≠ 0 then pure 0
      else do
        let ret : ℤ ← kcall (.helper (.transferObFifo atoms))
        if ret < 0 then do
          kcall (.writel .ddCbFifoReset 0)
          let written : ℤ ← kcall (.load .dmaWritten)
          pure (written * ddAtomSize)
        else do
          continueAfter ret
          pure (ret * ddAtomSize)

/-- What `libera_dd_read_specific` does with the device taken. -/
def ddReadLocked (count turns : ℕ) : KProg ℤ :=
  if count > ddMaxInterval * ddAtomSize then pure (-eInval)
  else if count % ddAtomSize ≠ 0 then pure (-eInval)
  else if count / ddAtomSize = 0 then do
    continueAfter 0
    pure 0
  else ddReadAtoms (count / ddAtomSize) turns

/-- `libera_dd_read_specific`. -/
def liberaDdRead (count turns : ℕ) : KProg ℤ := do
  let interrupted ← mutexLockInterruptible (.sem .dd)
  if interrupted then pure (-eRestartSys)
  else do
    let ret ← ddReadLocked count turns
    enableDdInterrupt
    kcall (.mutexUnlock (.sem .dd))
    pure ret

/-! ## Reading from the PM and the ADC device -/

/-- What `libera_pm_read` does with the device taken. -/
def pmReadLocked (count : ℕ) : KProg ℤ := do
  let pmsize : ℤ ← kcall (.load .pmsize)
  if count > pmsize * ddAtomSize then pure (-eInval)
  else if count % ddAtomSize ≠ 0 then pure (-eInval)
  else do
    let left : ℕ ← kcall (.copyToUser (count / ddAtomSize * ddAtomSize))
    pure (if left ≠ 0 then -eFault else (count / ddAtomSize * ddAtomSize : ℕ))

/-- `libera_pm_read`. -/
def liberaPmRead (count : ℕ) : KProg ℤ := do
  let interrupted ← mutexLockInterruptible (.sem .pm)
  if interrupted then pure (-eRestartSys)
  else do
    let ret ← pmReadLocked count
    kcall (.mutexUnlock (.sem .pm))
    pure ret

/-- `LIBERA_ADC_BUFFER_ATOMS`. -/
def adcBufferAtoms : ℕ := 1024

/-- The loop of `libera_adc_read` that fills the buffer, for the last `n` atoms: whether the
operator accepted them all. -/
def adcFill : ℕ → KProg Bool
  | 0 => pure true
  | n + 1 => do
    let _ ← kcall (.readl (.adcChanCd (adcBufferAtoms - (n + 1))))
    let _ ← kcall (.readl (.adcChanAb (adcBufferAtoms - (n + 1))))
    let op : Option ℤ ← kcall .adcOp
    if op.getD 0 ≠ 0 then pure false else adcFill n

/-- The loop of `libera_adc_read` that copies `n` atoms to the user: whether all were copied. -/
def adcCopy : ℕ → KProg Bool
  | 0 => pure true
  | n + 1 => do
    let left : ℕ ← kcall (.copyToUser adcAtomSize)
    if left ≠ 0 then pure false else adcCopy n

/-- `libera_adc_read`. An atom that cannot be copied ends it with the device taken. -/
def liberaAdcRead (count : ℕ) : KProg ℤ :=
  if count = 0 then pure 0
  else do
    let interrupted ← mutexLockInterruptible (.sem .adc)
    if interrupted then pure (-eRestartSys)
    else if count > adcBufferAtoms * adcAtomSize then do
      kcall (.mutexUnlock (.sem .adc))
      pure (-eInval)
    else if count % adcAtomSize ≠ 0 then do
      kcall (.mutexUnlock (.sem .adc))
      pure (-eInval)
    else do
      let filled ← adcFill adcBufferAtoms
      if !filled then do
        kcall (.mutexUnlock (.sem .adc))
        pure (-eFault)
      else do
        let copied ← adcCopy (count / adcAtomSize)
        if !copied then pure (-eFault)
        else do
          kcall (.mutexUnlock (.sem .adc))
          pure (count / adcAtomSize * adcAtomSize : ℕ)

/-! ## ioctl -/

/-- The checks of a command that come first: its type and number, and the memory of the user. -/
def checkIoctl (group : ℕ) (cmd : Command) : KProg ℤ :=
  if iocType cmd ≠ liberaIocMagic then pure (-eNoTty)
  else if iocNr cmd &&& liberaIocMask ≠ group then pure (-eNoTty)
  else if iocDir cmd &&& (iocRead ||| iocWrite) ≠ 0 then do
    let ok : Bool ← kcall (.accessOk (cmd.toNat / 2 ^ 16 % 2 ^ 14))
    pure (if ok then 0 else -eFault)
  else pure 0

/-- `LIBERA_IOC_GET_DEC`, `LIBERA_IOC_SET_DEC` and `LIBERA_IOC_GET_DD_TSTAMP`. -/
def liberaIocGetDec : Command := ioc iocRead liberaIocMagic 96 u32Size

def liberaIocSetDec : Command := ioc iocWrite liberaIocMagic 96 u32Size

def liberaIocGetDdTstamp : Command := ioc iocRead liberaIocMagic 97 timestampSize

/-- `libera_dd_ioctl`. A command that is not known ends it with the device taken. -/
def liberaDdIoctl (cmd : Command) : KProg ℤ := do
  let err ← checkIoctl liberaIocDd cmd
  if err ≠ 0 then pure err
  else do
    let interrupted ← mutexLockInterruptible (.sem .dd)
    if interrupted then pure (-eRestartSys)
    else if cmd = liberaIocGetDec then do
      let left : ℕ ← kcall (.copyToUser u32Size)
      kcall (.mutexUnlock (.sem .dd))
      pure left
    else if cmd = liberaIocSetDec then do
      let (left, dec) ← (kcall (.copyFromUser u32Size) : KProg (ℕ × ℕ))
      if dec ≠ 0 then do
        kcall (.store .dec dec)
        kcall (.mutexUnlock (.sem .dd))
        pure left
      else do
        kcall (.mutexUnlock (.sem .dd))
        pure (-eInval)
    else if cmd = liberaIocGetDdTstamp then do
      let left : ℕ ← kcall (.copyToUser timestampSize)
      kcall (.mutexUnlock (.sem .dd))
      pure left
    else pure (-eNoTty)

/-- `LIBERA_IOC_GET_PM_TSTAMP`. -/
def liberaIocGetPmTstamp : Command := ioc iocRead liberaIocMagic 128 timestampSize

/-- The check of `libera_pm_ioctl` that only the first reader gives commands that set something. -/
def checkMaster (cmd : Command) : KProg ℤ :=
  if iocDir cmd = iocWrite then do
    let master : Owner ← kcall (.master .pm)
    pure (if master ≠ .self then -ePerm else 0)
  else pure 0

/-- `libera_pm_ioctl`. A command that is not known ends it with the device taken. -/
def liberaPmIoctl (cmd : Command) : KProg ℤ := do
  let err ← checkIoctl liberaIocPm cmd
  if err ≠ 0 then pure err
  else do
    let err ← checkMaster cmd
    if err ≠ 0 then pure err
    else do
      let interrupted ← mutexLockInterruptible (.sem .pm)
      if interrupted then pure (-eRestartSys)
      else if cmd = liberaIocGetPmTstamp then do
        let left : ℕ ← kcall (.copyToUser timestampSize)
        kcall (.mutexUnlock (.sem .pm))
        pure left
      else pure (-eNoTty)

/-- `libera_ioctl`. -/
def liberaIoctl : KProg ℤ := pure (-eInval)

end LiberaDaq.Kernel
