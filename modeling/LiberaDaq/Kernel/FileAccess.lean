import LiberaDaq.Kernel.EventOps
import LiberaDaq.Kernel.Rings

/-!
# The files that are open on the devices

What opening and closing a file does to the configuration, FA and DSC devices (`libera_cfg.c`,
`libera_fa.c`, `libera_dsc.c`) and to the event device (`libera_event.c`), which also keeps a vector
of triggers for each file. The kernel calls `open` with a new `struct file`, keeps the file if the
device accepts it, and calls `release` once for each file that it keeps.
-/

namespace LiberaDaq.Kernel

open LiberaDaq.Cspi

/-- The address of a `struct file`. -/
abbrev Filp := ℕ

/-! ## What all devices count -/

/-- The members of `LIBERA_COMMON_DEV` that concern the open files. -/
structure CommonDev where
  openCount : ℤ
  writers : Word
  readers : Word
  masterFilp : Option Filp

namespace CommonDev

/-- The counts of a device that accepts a file. -/
def count (d : CommonDev) (mode : FMode) : CommonDev :=
  { d with
    writers := if mode.write then d.writers + 1 else d.writers
    readers := if mode.read then d.readers + 1 else d.readers
    openCount := d.openCount + 1 }

/-- `libera_cfg_open`, `libera_fa_open` and `libera_dsc_open`, which differ in the device alone;
`dev` says that the file has a device. -/
def openFile (d : CommonDev) (dev : Bool) (file : Filp) (mode : FMode) : ℤ × CommonDev :=
  if !dev then (-eNoDev, d)
  else if mode.write then
    if d.masterFilp.isNone then (0, { d with masterFilp := some file }.count mode)
    else (-eBusy, d)
  else (0, d.count mode)

/-- `libera_cfg_release`, `libera_fa_release` and `libera_dsc_release`. -/
def releaseFile (d : CommonDev) (mode : FMode) : CommonDev :=
  let d := { d with openCount := d.openCount - 1 }
  let d := if mode.read then { d with readers := d.readers - 1 } else d
  if mode.write then
    let d := { d with writers := d.writers - 1 }
    if d.writers = 0 then { d with masterFilp := none } else d
  else d

end CommonDev

/-! ## The event device -/

/-- The two clocks of the triggers. -/
inductive TrigClock
  | sc | mc
  deriving DecidableEq, Repr

/-- `struct libera_event_local`, `sc_trigVec` and `mc_trigVec`. -/
structure EventLocal where
  trigVec : TrigClock → Word

/-- `struct libera_event_device` as far as the files go: `sc_trigVec` and `mc_trigVec`, what was
last written to `T_SC_TRIGGER_MASK` and `T_MC_TRIGGER_MASK`, `sc_timestamps` and `mc_timestamps`,
the FIFO of the events, and the mask of the events in `lgbl`. -/
structure EventDev extends CommonDev where
  trigVec : TrigClock → Word
  triggerMask : TrigClock → Word
  timestamps : TrigClock → ℕ → LiberaFifo
  events : LiberaEventFifo
  eventMask : Word

namespace EventDev

/-- `dev->vec &= ~vec`. -/
def dropTriggers (d : EventDev) (c : TrigClock) (vec : Word) : EventDev :=
  { d with trigVec := Function.update d.trigVec c (d.trigVec c &&& ~~~vec) }

/-- The mask of the triggers is written. The bit that counts is kept in it. -/
def writeMask (d : EventDev) (c : TrigClock) : EventDev :=
  { d with triggerMask := Function.update d.triggerMask c (d.trigVec c ||| selfInc) }

/-- `libera_sctrig_enable` and `libera_mctrig_enable`. -/
def trigEnable (d : EventDev) (c : TrigClock) (mask : Word) : ℤ × EventDev :=
  if mask &&& trigNoneMask ≠ 0 then (-1, d)
  else (0, { d with trigVec := Function.update d.trigVec c (d.trigVec c ||| mask) }.writeMask c)

/-- `flushFIFO` on one of the FIFOs of the time stamps. -/
def flushStamps (d : EventDev) (c : TrigClock) (i : ℕ) : EventDev :=
  let stamps := Function.update (d.timestamps c) i (flushFIFO (d.timestamps c i))
  { d with timestamps := Function.update d.timestamps c stamps }

/-- `flush_eventFIFO` on the FIFO of the events. -/
def flushEvents (d : EventDev) : EventDev := { d with events := flushEventFIFO d.events }

/-- `flushFIFO` on the FIFO `n` of the structure, counted from the first of `sc_timestamps`. Those
of `mc_timestamps` follow, and the FIFO of the events, which is of the same size; what comes later
in the memory is not part of the device. -/
def flushNth (d : EventDev) (n : ℕ) : EventDev :=
  if n < trigEventsMax then d.flushStamps .sc n
  else if n < 2 * trigEventsMax then d.flushStamps .mc (n - trigEventsMax)
  else if n = 2 * trigEventsMax then d.flushEvents
  else d

/-- The place of `sc_timestamps` and `mc_timestamps`. -/
def firstStamps : TrigClock → ℕ
  | .sc => 0
  | .mc => trigEventsMax

/-- The FIFOs that are flushed when the triggers of `bits` are enabled. The index runs on from one
bit to the next while the bit is counted from the first again, so that it may leave the array. -/
def flushTriggers (c : TrigClock) : ℕ → List ℕ → EventDev → EventDev
  | _, [], d => d
  | i, b :: bits, d => flushTriggers c (i + b) bits (d.flushNth (firstStamps c + (i + b)))

/-- The event device that `libera_init_devs` has cleared, on the masks that the FPGA came up
with. -/
def cleared (mask : TrigClock → Word) : EventDev where
  openCount := 0
  writers := 0
  readers := 0
  masterFilp := none
  trigVec := fun _ => 0
  triggerMask := mask
  timestamps := fun _ _ => ⟨fun _ => 0, 0, 0, zero_lt_trigLog, zero_lt_trigLog⟩
  events := ⟨fun _ => ⟨0, 0⟩, 0, 0, zero_lt_trigLog, zero_lt_trigLog⟩
  eventMask := 0

/-- The triggers that the driver enables for itself. -/
def baseTriggers : Word :=
  triggerBit trigCtime ||| triggerBit trigTrigger ||| triggerBit trigPostMortem

/-- What `libera_init` and `libera_init_specific` enable. -/
def startTriggers (d : EventDev) : EventDev :=
  let d := (d.trigEnable .sc baseTriggers).2
  let d := (d.trigEnable .mc baseTriggers).2
  (d.trigEnable .sc (triggerBit trigPostMortem)).2

end EventDev

/-- The event device, the memory that it got for `struct libera_event_local`, and in `version` the
member `f_version` of each file. The kernel keeps the files that were opened. -/
structure EventSite where
  dev : EventDev
  heap : ℕ → Option EventLocal
  version : Filp → ℕ
  files : Filp → Option FMode

namespace EventSite

/-- The event device when the driver was loaded. -/
def loaded (mask : TrigClock → Word) : EventSite :=
  ⟨(EventDev.cleared mask).startTriggers, fun _ => none, fun _ => 0, fun _ => none⟩

/-- The vector of triggers in `event_local` of a file. -/
def own (s : EventSite) (file : Filp) (c : TrigClock) : Word :=
  ((s.heap (s.version file)).map fun l => l.trigVec c).getD 0

/-- `event_local->vec |= arg`. -/
def enlarge (s : EventSite) (file : Filp) (c : TrigClock) (arg : Word) : EventSite :=
  let p := s.version file
  let mine := (s.heap p).map fun l => ⟨Function.update l.trigVec c (l.trigVec c ||| arg)⟩
  { s with heap := Function.update s.heap p mine }

/-- `libera_event_open`, where `mem` is what `kmalloc` returns. -/
def openFile (s : EventSite) (dev : Bool) (file : Filp) (mode : FMode) (mem : Option ℕ) :
    ℤ × EventSite :=
  if !dev then (-eNoDev, s)
  else match mem with
  | none => (-eNoMem, s)
  | some p =>
    let s := { s with
      heap := Function.update s.heap p (some ⟨fun _ => 0⟩)
      version := Function.update s.version file p }
    if mode.write then
      if s.dev.masterFilp.isNone then
        let d := { s.dev with masterFilp := some file }.flushEvents
        (0, { s with dev := { d with toCommonDev := d.count mode } })
      else (-eBusy, s)
    else (0, { s with dev := { s.dev with toCommonDev := s.dev.count mode } })

/-- `libera_event_release`. The triggers are dropped for a file that was open only to read. -/
def releaseFile (s : EventSite) (file : Filp) (mode : FMode) : EventSite :=
  let d := { s.dev with openCount := s.dev.openCount - 1 }
  let d : EventDev :=
    if mode.read then
      let d := { d with readers := d.readers - 1 }
      if !mode.write then
        let d := d.dropTriggers .mc (s.own file .mc)
        let d := d.dropTriggers .sc (s.own file .sc)
        (d.writeMask .sc).writeMask .mc
      else d
    else d
  let d : EventDev :=
    if mode.write then
      let d : EventDev := { d with writers := d.writers - 1 }
      if d.writers = 0 then
        let d : EventDev := { d with masterFilp := none, eventMask := 0 }
        d.flushEvents
      else d
    else d
  { s with
    dev := d
    heap := Function.update s.heap (s.version file) none
    version := Function.update s.version file 0 }

/-- `LIBERA_EVENT_ENABLE_SC_TRIG` and `LIBERA_EVENT_ENABLE_MC_TRIG`; `ok` is what `access_ok` says
of the argument, which `libera_event_ioctl` takes for an address. -/
def enableTrig (s : EventSite) (c : TrigClock) (file : Filp) (ok : Bool) (arg : Word) :
    ℤ × EventSite :=
  if !ok then (-eFault, s)
  else if arg = 0 ∨ arg &&& trigNoneMask ≠ 0 then (-eInval, s)
  else if arg &&& s.dev.trigVec c ≠ 0 then (-eBusy, s)
  else
    let s := s.enlarge file c arg
    let d := EventDev.flushTriggers c 0 (trigBits arg) s.dev
    (0, { s with dev := (d.trigEnable c (s.own file c)).2 })

end EventSite

/-! ## The files of the event device -/

/-- What happens to the event device. -/
inductive EventMove
  | openFile (dev : Bool) (file : Filp) (mode : FMode) (mem : Option ℕ)
  | close (file : Filp)
  | enableTrig (c : TrigClock) (file : Filp) (ok : Bool) (arg : Word)

namespace EventSite

/-- The files that the kernel keeps after an `open` with the code `ret`. -/
def keepFile (files : Filp → Option FMode) (file : Filp) (mode : FMode) (ret : ℤ) :
    Filp → Option FMode :=
  if ret = 0 then Function.update files file (some mode) else files

/-- A move, and the code that it returns. -/
def answer (s : EventSite) : EventMove → ℤ × EventSite
  | .openFile dev file mode mem =>
    let (ret, s') := s.openFile dev file mode mem
    (ret, { s' with files := keepFile s.files file mode ret })
  | .close file =>
    match s.files file with
    | none => (0, s)
    | some mode => (0, { s.releaseFile file mode with files := Function.update s.files file none })
  | .enableTrig c file ok arg => s.enableTrig c file ok arg

/-- The state after a move. -/
def step (s : EventSite) (m : EventMove) : EventSite := (s.answer m).2

/-- A move that the kernel can make: it opens a file that is new, with memory that is free, and
closes or asks through a file that is open. -/
def Possible (s : EventSite) : EventMove → Prop
  | .openFile _ file _ mem => s.files file = none ∧ ∀ p ∈ mem, s.heap p = none
  | .close file => s.files file ≠ none
  | .enableTrig _ file _ _ => s.files file ≠ none

/-- A request leaves the files as they are. -/
theorem enableTrig_files {s : EventSite} {c : TrigClock} {file : Filp} {ok : Bool} {arg : Word} :
    (s.enableTrig c file ok arg).2.files = s.files := by
  unfold enableTrig
  split
  · rfl
  · split
    · rfl
    · split <;> rfl

end EventSite

end LiberaDaq.Kernel
