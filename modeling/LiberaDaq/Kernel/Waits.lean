import LiberaDaq.Kernel.Calls

/-!
# Waiting in the kernel driver

The functions that put a process to sleep until a queue holds something or a time has come. Each
takes the mutexes that it needs itself. A loop without a bound is left after `turns` rounds or not
at all.
-/

namespace LiberaDaq.Kernel

open LiberaDaq.Interaction

/-! ## Waiting for a queue -/

/-- The loop of `getBlockedFromFIFO` and of `libera_event_read`, which sleeps with the mutex
released: `0` when the queue holds something, or `-ERESTARTSYS`. -/
def sleepOnFifo (d : Device) (q : Queue) : ℕ → KProg ℤ
  | 0 => forever
  | turns + 1 => do
    let empty : Bool ← kcall (.emptyFifo q)
    if !empty then pure 0
    else do
      let pending : Bool ← kcall .signalPending
      if !pending then do
        kcall (.mutexUnlock (.sem d))
        kcall .schedule
        kcall (.mutexLock (.sem d))
        sleepOnFifo d q turns
      else pure (-eRestartSys)

/-- The check of the queue before the loop. -/
def waitForFifo (d : Device) (q : Queue) (turns : ℕ) : KProg ℤ := do
  let empty : Bool ← kcall (.emptyFifo q)
  if empty then sleepOnFifo d q turns else pure 0

/-- What `getBlockedFromFIFO` does with the device taken. -/
def blockedLocked (q : Queue) (turns : ℕ) : KProg (ℤ × Option ℤ) := do
  let ret ← waitForFifo .event q turns
  if ret ≠ 0 then pure (ret, none)
  else do
    let data : Option ℤ ← kcall (.getFromFifo q)
    match data with
    | none => pure (-eFault, none)
    | some x => pure (0, some x)

/-- `getBlockedFromFIFO`: the return code and the data. -/
def getBlockedFromFIFO (q : Queue) (turns : ℕ) : KProg (ℤ × Option ℤ) := do
  let interrupted ← mutexLockInterruptible (.sem .event)
  if interrupted then pure (-eRestartSys, none)
  else do
    let out ← blockedLocked q turns
    kcall (.mutexUnlock (.sem .event))
    pure out

/-- The loop of `getBlockedFromFIFOuser`, which sleeps for a limited time. When that is over it is
left with the mutex still released. -/
def sleepOnFifoTimeout (q : Queue) : ℕ → ℕ → KProg ℤ
  | _, 0 => forever
  | timeout, turns + 1 => do
    let empty : Bool ← kcall (.emptyFifo q)
    if !empty then pure 0
    else do
      let pending : Bool ← kcall .signalPending
      if !pending then do
        kcall (.mutexUnlock (.sem .event))
        let timeout : ℕ ← kcall (.scheduleTimeout timeout)
        if timeout = 0 then pure (-eAgain)
        else do
          kcall (.mutexLock (.sem .event))
          sleepOnFifoTimeout q timeout turns
      else pure (-eRestartSys)

/-- The check of the queue before that loop. -/
def waitForFifoTimeout (q : Queue) (timeout turns : ℕ) : KProg ℤ := do
  let empty : Bool ← kcall (.emptyFifo q)
  if empty then sleepOnFifoTimeout q timeout turns else pure 0

/-- The data of a queue is handed over to the user, unless the wait for it failed. -/
def handOver (q : Queue) (ret : ℤ) : KProg ℤ :=
  if ret ≠ 0 then pure ret
  else do
    let data : Option ℤ ← kcall (.getFromFifo q)
    match data with
    | none => pure (-eFault)
    | some _ => do
      let left : ℕ ← kcall (.copyToUser hwTimeSize)
      pure (if left ≠ 0 then -eFault else 0)

/-- `getBlockedFromFIFOuser`. -/
def getBlockedFromFIFOuser (q : Queue) (timeout turns : ℕ) : KProg ℤ := do
  let interrupted ← mutexLockInterruptible (.sem .event)
  if interrupted then pure (-eRestartSys)
  else do
    let ret ← waitForFifoTimeout q timeout turns
    let ret ← handOver q ret
    kcall (.mutexUnlock (.sem .event))
    pure ret

/-! ## Waiting for a time -/

/-- `libera_Ltimestamp_t`. -/
structure Ctime where
  lst : ℤ
  lmt : ℤ

/-- `T_TRIG_CTIME`, `T_TRIG_POST_MORTEM` and `T_TRIG_TRIGGER`. -/
def trigCtime : ℕ := 4

def trigPostMortem : ℕ := 7

def trigTrigger : ℕ := 8

/-- `TRIGGER_BIT`. -/
def triggerBit (x : ℕ) : BitVec 32 := BitVec.ofNat 32 (2 ^ (x + 22))

/-- What `libera_get_CTIME` does with the mutex taken. -/
def ctimeLocked (turns : ℕ) : KProg (ℤ × Ctime) := do
  kcall (.writel .scEventgen (triggerBit trigCtime))
  let (ret, lmt) ← getBlockedFromFIFO (.mc trigCtime) turns
  if ret ≠ 0 then pure (ret, ⟨0, 0⟩)
  else do
    let data : Option ℤ ← kcall (.getFromFifo (.sc trigCtime))
    match data with
    | none => pure (-eFault, ⟨0, lmt.getD 0⟩)
    | some lst => pure (0, ⟨lst, lmt.getD 0⟩)

/-- `libera_get_CTIME`: the return code and the time, which is only set where that is `0`. -/
def liberaGetCTIME (turns : ℕ) : KProg (ℤ × Ctime) := do
  let interrupted ← mutexLockInterruptible .ctime
  if interrupted then pure (-eRestartSys, ⟨0, 0⟩)
  else do
    let out ← ctimeLocked turns
    kcall (.mutexUnlock .ctime)
    pure out

/-- `LIBERA_DD_CIRCBUF_ATOMS` and `LIBERA_DD_READSYNC_MARGIN`. -/
def ddCircbufAtoms : ℤ := 2097152

def ddReadsyncMargin : ℤ := 64

/-- `LIBERA_DD_MAX_INADVANCE`. -/
def ddMaxInadvance : ℤ := 5 * ddCircbufAtoms

/-- `HZ` and `MAX_SCHEDULE_TIMEOUT`. -/
def hz : ℕ := 100

def maxScheduleTimeout : ℕ := 2 ^ 31 - 1

/-- `LSC_FREQ` and `FLMC_DECI_HZ`. -/
def lscFreq : ℤ := 125000000

def flmcDeciHz : ℤ := 10

/-- The clock in which an interval is requested: `wait_lst` and `wait_lmt` differ in it alone. -/
inductive Clock
  | lst | lmt
  deriving DecidableEq, Repr

/-- The start of the requested interval in that clock. -/
def Clock.start : Clock → Field
  | .lst => .startLst
  | .lmt => .startLmt

def Clock.read : Clock → Ctime → ℤ
  | .lst, t => t.lst
  | .lmt, t => t.lmt

/-- How many jiffies to sleep for a delay in that clock. -/
def Clock.jiffies : Clock → ℤ → KProg ℤ
  | .lst, delay => pure (delay * hz / lscFreq + 1)
  | .lmt, delay => do
    let flmc : ℤ ← kcall (.load .flmcdHz)
    pure (delay * flmcDeciHz * hz / flmc + 1)

/-- The time by which the end of the requested interval has passed. -/
def deltaEnd (clock : Clock) (ctime : Ctime) : KProg ℤ := do
  let start : ℤ ← kcall (.load clock.start)
  let d : ℤ ← kcall (.load .lgblD)
  pure (clock.read ctime - start - ddReadsyncMargin * d)

/-- The loop of `wait_lst` and `wait_lmt`. -/
def sleepUntil (clock : Clock) : ℤ → ℕ → KProg ℤ
  | _, 0 => forever
  | delta, turns + 1 => do
    let jiffies ← clock.jiffies (-delta)
    let ret : ℤ ← kcall (.delayInterruptible jiffies)
    if ret ≠ 0 then pure ret
    else do
      let (ret, ctime) ← liberaGetCTIME turns
      if ret ≠ 0 then pure ret
      else do
        let delta ← deltaEnd clock ctime
        if delta < 0 then sleepUntil clock delta turns else pure 0

/-- `wait_lst` and `wait_lmt`. -/
def waitClock (clock : Clock) (ctime : Ctime) (turns : ℕ) : KProg ℤ := do
  let start : ℤ ← kcall (.load clock.start)
  let d : ℤ ← kcall (.load .lgblD)
  let deltaStart := clock.read ctime - start
  if deltaStart > ddCircbufAtoms * d - ddCircbufAtoms * d / 10 then pure (-eNoData)
  else
    let delta := deltaStart - ddReadsyncMargin * d
    if delta < 0 then
      if -delta > ddMaxInadvance * d then pure (-eAgain) else sleepUntil clock delta turns
    else pure 0

/-- `wait_lst`. -/
def waitLst (ctime : Ctime) (turns : ℕ) : KProg ℤ := waitClock .lst ctime turns

/-- `wait_lmt`. -/
def waitLmt (ctime : Ctime) (turns : ℕ) : KProg ℤ := waitClock .lmt ctime turns

end LiberaDaq.Kernel
