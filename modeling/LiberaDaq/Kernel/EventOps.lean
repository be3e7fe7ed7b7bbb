import LiberaDaq.Kernel.DeviceOps

/-!
# The event device

The file operations of `libera_event.c`, with `libera_acq_pm`. The module is built without the
commands for debugging and without the check for a single writer.
-/

namespace LiberaDaq.Kernel

open LiberaDaq.Interaction

/-! ## Opening and closing -/

/-- `libera_event_open`. -/
def liberaEventOpen (dev : Bool) (mode : FMode) : KProg ℤ :=
  if !dev then pure (-eNoDev)
  else do
    kcall (.mutexLock (.sem .event))
    let allocated : Bool ← kcall .kmalloc
    if !allocated then do
      kcall (.mutexUnlock (.sem .event))
      pure (-eNoMem)
    else do
      kcall (.storeVector .localScTrigVec 0)
      kcall (.storeVector .localMcTrigVec 0)
      let master : Owner ← kcall (.master .event)
      if mode.write ∧ master ≠ .none then do
        kcall (.mutexUnlock (.sem .event))
        pure (-eBusy)
      else do
        if mode.write then do
          kcall (.setMaster .event .self)
          kcall (.flushFifo .events)
          addTo (.writers .event) 1
        if mode.read then addTo (.readers .event) 1
        addTo (.openCount .event) 1
        kcall (.mutexUnlock (.sem .event))
        pure 0

/-- The bit that keeps the triggers counting, set with every mask of triggers. -/
def selfInc : BitVec 32 := 0x80000000

/-- `dev->vec &= ~(event_local->vec)`, and the mask of triggers that is left. -/
def dropTriggers (vec own : Vector) : KProg (BitVec 32) := do
  let v : BitVec 32 ← kcall (.loadVector vec)
  let o : BitVec 32 ← kcall (.loadVector own)
  kcall (.storeVector vec (v &&& ~~~o))
  pure ((v &&& ~~~o) ||| selfInc)

/-- `libera_event_release`. -/
def liberaEventRelease (mode : FMode) : KProg ℤ := do
  addTo (.openCount .event) (-1)
  if mode.read then do
    addTo (.readers .event) (-1)
    if !mode.write then do
      let mc ← dropTriggers .mcTrigVec .localMcTrigVec
      let sc ← dropTriggers .scTrigVec .localScTrigVec
      kcall (.writel .scTriggerMask sc)
      kcall (.writel .mcTriggerMask mc)
  if mode.write then do
    addTo (.writers .event) (-1)
    let writers : ℤ ← kcall (.load (.writers .event))
    if writers = 0 then do
      kcall (.setMaster .event .none)
      kcall (.storeVector .eventMask 0)
      kcall (.flushFifo .events)
  pure 0

/-! ## Reading -/

/-- The loop of `libera_event_read` that hands over `n` events after the first `i`: the code, or the
bytes that were copied. -/
def copyEvents : ℕ → ℕ → KProg ℤ
  | i, 0 => pure (i * eventSize : ℕ)
  | i, n + 1 => do
    let data : Option ℤ ← kcall (.getFromFifo .events)
    match data with
    | none => pure (-eFault)
    | some _ => do
      let left : ℕ ← kcall (.copyToUser eventSize)
      if left ≠ 0 then pure (-eFault) else copyEvents (i + 1) n

/-- A read that may not block finds no event. -/
def nothingToRead (nonblock : Bool) : KProg Bool :=
  if nonblock then kcall (.emptyFifo .events) else pure false

/-- What `libera_event_read` does with the device taken. -/
def eventReadLocked (nonblock : Bool) (count turns : ℕ) : KProg ℤ := do
  let empty ← nothingToRead nonblock
  if empty then pure (-eAgain)
  else if count = 0 then pure 0
  else if count % eventSize ≠ 0 then pure (-eInval)
  else do
    let ret ← waitForFifo .event .events turns
    if ret ≠ 0 then pure ret
    else do
      let len : ℕ ← kcall (.lenFifo .events)
      copyEvents 0 (min (count / eventSize) len)

/-- `libera_event_read`. -/
def liberaEventRead (nonblock : Bool) (count turns : ℕ) : KProg ℤ := do
  let interrupted ← mutexLockInterruptible (.sem .event)
  if interrupted then pure (-eRestartSys)
  else do
    let ret ← eventReadLocked nonblock count turns
    kcall (.mutexUnlock (.sem .event))
    pure ret

/-! ## The acquisition of the PM buffer -/

/-- `DD_WAIT_STEP`. -/
def ddWaitStep : ℤ := 1

/-- The loop of `libera_acq_pm`, which tries `n` times for the DD device: whether it got it. -/
def tryDdDevice : ℕ → KProg Bool
  | 0 => pure false
  | n + 1 => do
    kcall .wakeDma
    let locked ← mutexTrylock (.sem .dd)
    if locked then pure true
    else do
      let _ ← kcall (.delayInterruptible ddWaitStep)
      tryDdDevice n

/-- What `libera_acq_pm` does with the DD device. -/
def acqPmLocked (turns : ℕ) : KProg ℤ := do
  let event : ℤ × ℤ ← kcall (.lastTrigger trigPostMortem)
  let pmsize : ℤ ← kcall (.load .pmsize)
  let offset : ℤ ← kcall (.load .pmOffset)
  let d : ℤ ← kcall (.load .lgblD)
  kcall (.store .startLmt (event.2 + (offset - pmsize) * d))
  let (ret, ctime) ← liberaGetCTIME turns
  if ret ≠ 0 then pure ret
  else do
    let ret ← waitLmt ctime turns
    if ret ≠ 0 then pure ret
    else do
      let dec : ℤ ← kcall (.load .pmDec)
      let ret : ℤ ← kcall (.helper (.writeCbFifo pmsize.toNat dec))
      if ret < 0 then pure ret
      else do
        let (ret, _) ← getBlockedFromFIFO .ddIrq turns
        if ret ≠ 0 then pure ret
        else do
          let ret : ℤ ← kcall (.helper (.readObFifo pmsize.toNat))
          enableDdInterrupt
          if ret < 0 then pure ret
          else if ret < pmsize then pure (-eIo)
          else pure 0

/-- `libera_acq_pm`. -/
def liberaAcqPm (turns : ℕ) : KProg ℤ := do
  kcall (.store .pmEntry 1)
  let locked ← tryDdDevice 31
  kcall (.store .pmEntry 0)
  if !locked then pure (-eBusy)
  else do
    let ret ← acqPmLocked turns
    kcall (.mutexUnlock (.sem .dd))
    pure ret

/-! ## The commands -/

/-- The commands of the event device. -/
inductive EventIoctl
  | setDacA | setDacB | enableScTrig | enableMcTrig
  | getScTrigger19 | getMcTrigger19 | getScTrigger10 | getScTrigger9 | getMcTrigger10
  | getMcTrigger1 | getMcTrigger0 | setScEvent | getFlmc | setFlmc | getMcphi | setMcphi
  | getScphi | setScphi | setNco | setMcpll | setScpll | getCtime | getSt | setSt | getMt | setMt
  | getTrigTrigger | getFifolenSc | getFifolenMc | getMask | setMask | flush | acqPm | fionread
  deriving DecidableEq, Repr

/-- The numbers of the commands, `LIBERA_EVENT_*`, and `FIONREAD`. -/
def EventIoctl.code : EventIoctl → Command
  | .setDacA => ioc iocWrite liberaEventMagic 0 u32Size
  | .setDacB => ioc iocWrite liberaEventMagic 1 u32Size
  | .setScEvent => ioc iocWrite liberaEventMagic 6 u32Size
  | .enableScTrig => ioc iocWrite liberaEventMagic 2 u32Size
  | .enableMcTrig => ioc iocWrite liberaEventMagic 3 u32Size
  | .getScTrigger19 => ioc iocRead liberaEventMagic 7 hwTimeSize
  | .getMcTrigger19 => ioc iocRead liberaEventMagic 10 hwTimeSize
  | .getScTrigger10 => ioc iocRead liberaEventMagic 8 hwTimeSize
  | .getScTrigger9 => ioc iocRead liberaEventMagic 9 hwTimeSize
  | .getMcTrigger10 => ioc iocRead liberaEventMagic 11 hwTimeSize
  | .getSt => ioc iocRead liberaEventMagic 4 timespecSize
  | .setSt => ioc iocWrite liberaEventMagic 4 hrTimestampSize
  | .getMt => ioc iocRead liberaEventMagic 5 hwTimeSize
  | .setMt => ioc iocWrite liberaEventMagic 5 hrTimestampSize
  | .getFlmc => ioc iocRead liberaEventMagic 12 u32Size
  | .setFlmc => ioc iocWrite liberaEventMagic 12 u32Size
  | .getMcphi => ioc iocRead liberaEventMagic 19 hwTimeSize
  | .setMcphi => ioc iocWrite liberaEventMagic 19 hwTimeSize
  | .getScphi => ioc iocRead liberaEventMagic 20 hwTimeSize
  | .setScphi => ioc iocWrite liberaEventMagic 20 hwTimeSize
  | .getCtime => ioc iocRead liberaEventMagic 13 lTimestampSize
  | .getTrigTrigger => ioc iocRead liberaEventMagic 14 lTimestampSize
  | .getMask => ioc iocRead liberaEventMagic 16 u32Size
  | .setMask => ioc iocWrite liberaEventMagic 16 u32Size
  | .flush => ioc iocWrite liberaEventMagic 17 u32Size
  | .acqPm => ioc iocWrite liberaEventMagic 18 u32Size
  | .getMcTrigger1 => ioc iocRead liberaEventMagic 21 hwTimeSize
  | .getMcTrigger0 => ioc iocRead liberaEventMagic 22 hwTimeSize
  | .setNco => ioc iocWrite liberaEventMagic 23 u32Size
  | .setMcpll => ioc iocWrite liberaEventMagic 24 u32Size
  | .setScpll => ioc iocWrite liberaEventMagic 25 u32Size
  | .getFifolenSc => ioc (iocRead ||| iocWrite) liberaEventMagic 26 u32Size
  | .getFifolenMc => ioc (iocRead ||| iocWrite) liberaEventMagic 27 u32Size
  | .fionread => 0x541B

/-- The commands, in the order of the `switch`. -/
def EventIoctl.all : List EventIoctl :=
  [.setDacA, .setDacB, .enableScTrig, .enableMcTrig, .getScTrigger19, .getMcTrigger19,
    .getScTrigger10, .getScTrigger9, .getMcTrigger10, .getMcTrigger1, .getMcTrigger0, .setScEvent,
    .getFlmc, .setFlmc, .getMcphi, .setMcphi, .getScphi, .setScphi, .setNco, .setMcpll, .setScpll,
    .getCtime, .getSt, .setSt, .getMt, .setMt, .getTrigTrigger, .getFifolenSc, .getFifolenMc,
    .getMask, .setMask, .flush, .acqPm, .fionread]

/-- The command of a number. -/
def EventIoctl.ofCode (cmd : Command) : Option EventIoctl := all.find? fun c => c.code = cmd

/-- `LIBERA_EVENT_SET_DAC_A` and `LIBERA_EVENT_SET_DAC_B`. -/
def setDac (r : Register) (arg : BitVec 32) : KProg ℤ :=
  if arg &&& ~~~(0xFFFF : BitVec 32) ≠ 0 then pure (-eInval)
  else do
    kcall (.writel r arg)
    pure 0

/-- The triggers of a word, the bits of `TRIG_ALL_MASK`, counted from the first. -/
def trigBits (arg : BitVec 32) : List ℕ := (List.range 9).filter fun b => arg.getLsbD (b + 22)

/-- `~TRIG_ALL_MASK`, which the macro makes `~0x1FF << 22`. -/
def trigNoneMask : BitVec 32 := (~~~(0x1FF : BitVec 32)) <<< 22

/-- The queues that are flushed when the triggers of `bits` are enabled. The index runs on from one
bit to the next while the bit is counted from the first again. -/
def flushTriggers (q : ℕ → Queue) : ℕ → List ℕ → KProg Unit
  | _, [] => pure ()
  | i, b :: bits => do
    kcall (.flushFifo (q (i + b)))
    flushTriggers q (i + b) bits

/-- `LIBERA_EVENT_ENABLE_SC_TRIG` and `LIBERA_EVENT_ENABLE_MC_TRIG`, with `libera_sctrig_enable` and
`libera_mctrig_enable`. -/
def enableTrig (vec own : Vector) (q : ℕ → Queue) (mask : Register) (arg : BitVec 32) : KProg ℤ :=
  if arg = 0 ∨ arg &&& trigNoneMask ≠ 0 then pure (-eInval)
  else do
    let enabled : BitVec 32 ← kcall (.loadVector vec)
    if arg &&& enabled ≠ 0 then pure (-eBusy)
    else do
      let mine : BitVec 32 ← kcall (.loadVector own)
      kcall (.storeVector own (mine ||| arg))
      flushTriggers q 0 (trigBits arg)
      let mine : BitVec 32 ← kcall (.loadVector own)
      if mine &&& trigNoneMask ≠ 0 then pure 0
      else do
        let enabled : BitVec 32 ← kcall (.loadVector vec)
        kcall (.storeVector vec (enabled ||| mine))
        kcall (.writel mask (enabled ||| mine ||| selfInc))
        pure 0

/-- `GET_SC_TRIGGER_MACRO` and `GET_MC_TRIGGER_MACRO`. -/
def getTrigger (own : Vector) (q : ℕ → Queue) (x timeout turns : ℕ) : KProg ℤ := do
  let mine : BitVec 32 ← kcall (.loadVector own)
  if mine &&& triggerBit x = 0 then pure (-ePerm)
  else getBlockedFromFIFOuser (q x) timeout turns

/-- A command that copies something to the user. -/
def getCommand (size : ℕ) : KProg ℤ := do
  let left : ℕ ← kcall (.copyToUser size)
  pure left

/-- A command that copies something from the user and does something with it. -/
def setCommand (size : ℕ) (f : ℕ → KProg Unit) : KProg ℤ := do
  let (left, x) ← (kcall (.copyFromUser size) : KProg (ℕ × ℕ))
  f x
  pure left

/-- A command that copies the time, or a part of it, to the user. -/
def getTime (size turns : ℕ) : KProg ℤ := do
  let _ ← liberaGetCTIME turns
  getCommand size

/-- `FAI_PLL_STATUS_MASK`. -/
def faiPllStatusMask : BitVec 32 := 0x3

/-- `LIBERA_EVENT_CFG`. -/
def liberaEventCfg : ℤ := 2

/-- `LIBERA_EVENT_SET_MCPLL`. -/
def setMcpll (x : ℕ) : KProg Unit := do
  let state := BitVec.ofNat 32 x &&& faiPllStatusMask
  kcall (.storeVector .mcPll state)
  let status : BitVec 32 ← kcall (.readl .faiSwStatus)
  kcall (.writel .faiSwStatus ((status &&& ~~~faiPllStatusMask) ||| state))
  let _ ← kcall (.sendEvent liberaEventCfg 1)

/-- `LIBERA_EVENT_SET_SCPLL`. -/
def setScpll (x : ℕ) : KProg Unit := do
  kcall (.storeVector .scPll (BitVec.ofNat 32 x &&& faiPllStatusMask))
  let _ ← kcall (.sendEvent liberaEventCfg 2)

/-- `LIBERA_TRIGMODE_SET`, `LIBERA_SETTIME_ST` and `LIBERA_SETTIME_MT`. -/
def triggerModeSet : ℤ := 2

def settimeSt : ℤ := 1

def settimeMt : ℤ := 2

/-- A time is set with the next trigger. -/
def armSettime (f : Field) (time update : ℤ) : KProg Unit := do
  kcall (.store f time)
  kcall (.store .trigMode triggerModeSet)
  let updates : ℤ ← kcall (.load .settimeUpdate)
  kcall (.store .settimeUpdate (updates + if updates / update % 2 = 0 then update else 0))

/-- `LIBERA_EVENT_SET_MT`, with the machine time and the phase of a `libera_HRtimestamp_t`. -/
def setMt : KProg ℤ := do
  let (left, x) ← (kcall (.copyFromUser hrTimestampSize) : KProg (ℕ × ℕ))
  let mt : ℤ := (x / 2 ^ 64 % 2 ^ 64 : ℕ)
  let phase : ℤ := (x / 2 ^ 128 : ℕ)
  let d : ℤ ← kcall (.load .lgblD)
  if phase ≥ d then pure (-eInval)
  else do
    armSettime .settimeLmt (mt * d + phase) settimeMt
    kcall (.writel .faiCounterReset 0xffffffff)
    pure left

/-- `TRIG_EVENTS_MAX`. -/
def trigEventsMax : ℕ := 11

/-- `LIBERA_EVENT_GET_FIFOLEN_SC` and `LIBERA_EVENT_GET_FIFOLEN_MC`. -/
def getFifolen (q : ℕ → Queue) : KProg ℤ := do
  let (left, fifo) ← (kcall (.copyFromUser u32Size) : KProg (ℕ × ℕ))
  if left ≠ 0 then pure left
  else if fifo ≥ trigEventsMax then pure (-eInval)
  else do
    let _ ← kcall (.lenFifo (q fifo))
    getCommand u32Size

/-- A command that only the writer of the device may give. -/
def asMaster (p : KProg ℤ) : KProg ℤ := do
  let master : Owner ← kcall (.master .event)
  if master ≠ .self then pure (-ePerm) else p

/-- What a command does, with its argument. -/
def EventIoctl.run (arg : BitVec 32) (turns : ℕ) : EventIoctl → KProg ℤ
  | .setDacA => setDac .eventMcDac arg
  | .setDacB => setDac .eventScDac arg
  | .enableScTrig => enableTrig .scTrigVec .localScTrigVec .sc .scTriggerMask arg
  | .enableMcTrig => enableTrig .mcTrigVec .localMcTrigVec .mc .mcTriggerMask arg
  | .getScTrigger19 => pure (-eNoSys)
  | .getMcTrigger19 => pure (-eNoSys)
  | .getScTrigger10 => getTrigger .localScTrigVec .sc 6 hz turns
  | .getScTrigger9 => getTrigger .localScTrigVec .sc 5 hz turns
  | .getMcTrigger10 => getTrigger .localMcTrigVec .mc 6 hz turns
  | .getMcTrigger1 => getTrigger .localMcTrigVec .mc 1 maxScheduleTimeout turns
  | .getMcTrigger0 => getTrigger .localMcTrigVec .mc 0 maxScheduleTimeout turns
  | .setScEvent => do
    kcall (.writel .scEventgen (triggerBit 5))
    pure 0
  | .getFlmc => getCommand u32Size
  | .setFlmc => setCommand u32Size fun x => if x = 0 then pure () else kcall (.store .flmcdHz x)
  | .getMcphi => getCommand hwTimeSize
  | .setMcphi => setCommand hwTimeSize fun x => kcall (.store .mcphi x)
  | .getScphi => getCommand hwTimeSize
  | .setScphi => setCommand hwTimeSize fun x => kcall (.store .scphi x)
  | .setNco => setCommand u32Size fun x => kcall (.writel .ddcNco (BitVec.ofNat 32 x))
  | .setMcpll => setCommand u32Size Kernel.setMcpll
  | .setScpll => setCommand u32Size Kernel.setScpll
  | .getCtime => getTime lTimestampSize turns
  | .getSt => getTime timespecSize turns
  | .setSt => setCommand hrTimestampSize fun x => do
    let lst ← Clock.lst.ofUser (x % 2 ^ 64 : ℕ)
    armSettime .settimeLst lst settimeSt
  | .getMt => getTime hwTimeSize turns
  | .setMt => Kernel.setMt
  | .getTrigTrigger => do
    let _ ← kcall (.lastTrigger trigTrigger)
    getCommand lTimestampSize
  | .getFifolenSc => getFifolen .sc
  | .getFifolenMc => getFifolen .mc
  | .getMask => getCommand u32Size
  | .setMask => asMaster (setCommand u32Size fun x =>
    kcall (.storeVector .eventMask (BitVec.ofNat 32 x)))
  | .flush => asMaster (do
    kcall (.flushFifo .events)
    pure 0)
  | .acqPm => liberaAcqPm turns
  | .fionread => do
    let len : ℕ ← kcall (.lenFifo .events)
    kcall (.putUser (len * eventSize))

/-- `libera_event_cmd`. -/
def liberaEventCmd (cmd : Command) (arg : BitVec 32) (turns : ℕ) : KProg ℤ :=
  match EventIoctl.ofCode cmd with
  | none => pure (-eNoTty)
  | some c => c.run arg turns

/-- `libera_event_ioctl`. -/
def liberaEventIoctl (cmd : Command) (arg : BitVec 32) (turns : ℕ) : KProg ℤ :=
  if iocType cmd ≠ liberaEventMagic ∧ cmd ≠ EventIoctl.fionread.code then pure (-eNoTty)
  else if iocDir cmd &&& (iocRead ||| iocWrite) ≠ 0 then do
    let ok : Bool ← kcall (.accessOk (cmd.toNat / 2 ^ 16 % 2 ^ 14))
    if ok then liberaEventCmd cmd arg turns else pure (-eFault)
  else liberaEventCmd cmd arg turns

end LiberaDaq.Kernel
