import LiberaDaq.Kernel.CfgDevice
import LiberaDaq.Kernel.Waits

/-!
# Loading and unloading the kernel modules

`libera_init` and `msp_init` take what the drivers need from the kernel one after the other, and go
to a label when something cannot be had; the code behind the labels gives back what was taken
before, the last first. `libera_exit` and `msp_exit` give back everything.

The mapping of the registers is the one thing that the labels leave out, so that a module that could
not be loaded leaves it behind. An unloaded module leaves nothing behind, unless the mapping or the
interrupt has a number that the cleanup takes for none (`modules_books`).
-/

namespace LiberaDaq.Kernel

open LiberaDaq.Interaction LiberaDaq.Cspi

/-! ## The calls of the modules -/

/-- The registers that are accessed when a module is loaded or unloaded. -/
inductive ModuleRegister
  | fpgaFeatureItech | fpgaInfoDecCicFir | fpgaInfoDecDdc
  | sbcIrq2 | sbcIrqMask | tScTriggerMask | tMcTriggerMask | mspReset
  deriving DecidableEq, Repr

/-- The calls to the kernel. `initSpecific` is `libera_init_specific`; `sspSetup` are the registers
of the serial port. -/
inductive ModuleCall
  | ioremapNocache (base range : Word)
  | iounmap (addr : Word)
  | checkMemRegion (base range : Word)
  | requestMemRegion (base range : Word)
  | releaseMemRegion (base range : Word)
  | registerChrdev (major : ℕ)
  | unregisterChrdev (major : ℕ)
  | getFreePages
  | freePages (addr : Word)
  | pxaRequestDma
  | pxaFreeDma (chan : ℤ)
  | vmalloc (size : ℕ)
  | vfree (addr : Word)
  | pxaGpioMode (gpio : ℤ)
  | requestIrq (irq : ℤ)
  | freeIrq (irq : ℤ)
  | setIrqType (irq : ℤ)
  | readl (r : ModuleRegister)
  | writel (r : ModuleRegister) (x : Word)
  | initSpecific
  | sspSetup
  | delayJiffies (n : ℕ)
  deriving DecidableEq, Repr

/-- What a call gives back. An address that is `0` stands for `NULL`. -/
abbrev ModuleAns : ModuleCall → Type
  | .ioremapNocache _ _ | .getFreePages | .vmalloc _ | .readl _ => Word
  | .checkMemRegion _ _ | .registerChrdev _ | .pxaRequestDma | .requestIrq _ => ℤ
  | .requestMemRegion _ _ => Bool
  | _ => Unit

/-- A function of a module. -/
abbrev ModuleProg := Prog ModuleCall ModuleAns

/-- A call with its answer. -/
abbrev ModuleEvent := Event ModuleCall ModuleAns

/-- A call to the kernel. -/
abbrev mcall (c : ModuleCall) : ModuleProg (ModuleAns c) := Prog.perform c

/-! ## The driver of the instrument -/

/-- The parameters of the module, with the number that `IRQ_GPIO` makes of a GPIO. -/
structure LiberaParams where
  iobase : Word
  gpio : ℤ
  irqGpio : ℤ → ℤ
  flmcdHz : Word
  kadc : Word
  ilkdur : Word
  pmdur : Word
  pmsize : Word

/-- What `libera_init` keeps: the members of `lgbl`, `iobase` and the buffer of the PM device. -/
structure LiberaLoaded where
  iobase : Word
  global : Global
  dcic : Word
  dmaBuf : Word
  dmaChan : ℤ
  pmBuf : Word
  irq : ℤ

/-- `LIBERA_IORANGE` and `LIBERA_MAJOR`. -/
def liberaIorange : Word := 0x40000

def liberaMajor : ℕ := 240

/-- `LIBERA_PMSIZE_MAX`. -/
def liberaPmsizeMax : Word := 262144

/-- `ECHRNG`. -/
def eChrng : ℤ := 44

/-- `LIBERA_IS_BPM`, on the feature register. -/
def liberaIsBpm (cfg : Word) : Bool := (cfg &&& 0xF0000000) >>> 28 = 0

/-- The triggers that are enabled when the driver is loaded. -/
def initTriggers : Word :=
  triggerBit trigCtime ||| triggerBit trigTrigger ||| triggerBit trigPostMortem

/-- The interrupts that are unmasked when the driver is loaded, from SC to ILK. -/
def initInterrupts : Word := 0x2 ||| 0x8 ||| 0x4 ||| 0x10 ||| 0x20 ||| 0x40 ||| 0x100

/-- `libera_sctrig_enable` and `libera_mctrig_enable`, while no trigger is enabled. -/
def trigEnableFirst (r : ModuleRegister) (mask : Word) : ModuleProg Unit :=
  mcall (.writel r (mask ||| 0x80000000))

/-- The decimations, which only a BPM has. -/
def readDecimations (feature : Word) : ModuleProg (Word × Word) :=
  if liberaIsBpm feature then do
    let dfa ← mcall (.readl .fpgaInfoDecCicFir)
    let d ← mcall (.readl .fpgaInfoDecDdc)
    pure (dfa, d)
  else pure (0, 0)

/-- The part of `libera_init` that asks the FPGA what it is. -/
def readGlobal (p : LiberaParams) : ModuleProg (Global × Word) := do
  let feature ← mcall (.readl .fpgaFeatureItech)
  let (dfa, d) ← readDecimations feature
  let dcic := dfa >>> 16
  let numDfir := dfa % (1 <<< 16)
  pure (⟨feature, d, dcic * numDfir, (numDfir * 3).toNat, p.kadc, p.ilkdur, p.pmdur⟩, dcic)

/-- The label `err_IOmem`. -/
def errIOmem (ret : ℤ) : ModuleProg (Except ℤ LiberaLoaded) := pure (.error ret)

/-- The label `err_ChrDev`. -/
def errChrDev (iobase : Word) (ret : ℤ) : ModuleProg (Except ℤ LiberaLoaded) := do
  mcall (.releaseMemRegion iobase liberaIorange)
  errIOmem ret

/-- The label `err_DMABUF`. -/
def errDmabuf (iobase : Word) (ret : ℤ) : ModuleProg (Except ℤ LiberaLoaded) := do
  mcall (.unregisterChrdev liberaMajor)
  errChrDev iobase ret

/-- The label `err_DMACH`. -/
def errDmach (iobase buf : Word) (ret : ℤ) : ModuleProg (Except ℤ LiberaLoaded) := do
  mcall (.freePages buf)
  errDmabuf iobase ret

/-- The label `err_PMBUF`. -/
def errPmbuf (iobase buf : Word) (chan ret : ℤ) : ModuleProg (Except ℤ LiberaLoaded) := do
  mcall (.pxaFreeDma chan)
  errDmach iobase buf ret

/-- The label `err_IRQ`. -/
def errIrq (iobase buf : Word) (chan : ℤ) (pm : Word) (ret : ℤ) :
    ModuleProg (Except ℤ LiberaLoaded) := do
  mcall (.vfree pm)
  errPmbuf iobase buf chan ret

/-- The part of `libera_init` from the request of the interrupt on. -/
def hookIrq (p : LiberaParams) (x : LiberaLoaded) : ModuleProg (Except ℤ LiberaLoaded) := do
  mcall (.writel .sbcIrqMask 0)
  mcall (.pxaGpioMode p.gpio)
  let ret ← mcall (.requestIrq x.irq)
  if ret ≠ 0 then errIrq x.iobase x.dmaBuf x.dmaChan x.pmBuf ret
  else do
    let _ ← mcall (.readl .sbcIrq2)
    mcall (.writel .sbcIrqMask initInterrupts)
    trigEnableFirst .tScTriggerMask initTriggers
    trigEnableFirst .tMcTriggerMask initTriggers
    mcall (.setIrqType (p.irqGpio p.gpio))
    mcall .initSpecific
    pure (.ok x)

/-- The part of `libera_init` from the DMA buffer on. -/
def initBuffers (p : LiberaParams) (iobase : Word) (global : Global) (dcic : Word) :
    ModuleProg (Except ℤ LiberaLoaded) := do
  let buf ← mcall .getFreePages
  if buf = 0 then errDmabuf iobase (-eNoMem)
  else do
    let chan ← mcall .pxaRequestDma
    if chan < 0 then errDmach iobase buf (-eChrng)
    else if p.pmsize > liberaPmsizeMax then errPmbuf iobase buf chan (-eInval)
    else do
      let pm ← mcall (.vmalloc (p.pmsize.toNat * ddAtomSize))
      if pm = 0 then errPmbuf iobase buf chan (-eNoMem)
      else hookIrq p ⟨iobase, global, dcic, buf, chan, pm, p.irqGpio p.gpio⟩

/-- `libera_init`. -/
def liberaInit (p : LiberaParams) : ModuleProg (Except ℤ LiberaLoaded) :=
  if p.flmcdHz = 0 then pure (.error (-eInval))
  else do
    let iobase ← mcall (.ioremapNocache p.iobase liberaIorange)
    let ret ← mcall (.checkMemRegion iobase liberaIorange)
    if ret < 0 then errIOmem ret
    else do
      let region ← mcall (.requestMemRegion iobase liberaIorange)
      if !region then errIOmem (-eNoDev)
      else do
        let ret ← mcall (.registerChrdev liberaMajor)
        if ret < 0 then errChrDev iobase ret
        else do
          let (global, dcic) ← readGlobal p
          initBuffers p iobase global dcic

/-- `PAGE_MASK`. -/
def pageMask : Word := 0xFFFFF000

/-- The part of `libera_exit` that uninstalls the handler of the interrupt. -/
def unhookIrq (irq : ℤ) : ModuleProg Unit :=
  if 0 ≤ irq then do
    mcall (.writel .sbcIrqMask 0)
    mcall (.writel .tScTriggerMask 0)
    mcall (.writel .tMcTriggerMask 0)
    mcall (.freeIrq irq)
  else pure ()

/-- The part of `libera_exit` that gives the DMA channel back. -/
def freeChannel (chan : ℤ) : ModuleProg Unit :=
  if 0 ≤ chan then mcall (.pxaFreeDma chan) else pure ()

/-- The end of `libera_exit` and `msp_exit`, which gives the registers back. -/
def releaseIo (iobase range : Word) : ModuleProg Unit :=
  if iobase ≠ 0 then do
    mcall (.releaseMemRegion iobase range)
    mcall (.iounmap (iobase &&& pageMask))
  else pure ()

/-- `libera_exit`. -/
def liberaExit (x : LiberaLoaded) : ModuleProg Unit := do
  unhookIrq x.irq
  mcall (.vfree x.pmBuf)
  freeChannel x.dmaChan
  mcall (.freePages x.dmaBuf)
  mcall (.unregisterChrdev liberaMajor)
  releaseIo x.iobase liberaIorange

/-! ## The driver of the MSP -/

/-- `MSP_IORANGE` and `MSP_MAJOR`. -/
def mspIorange : Word := 0x10

def mspMajor : ℕ := 241

/-- `MRR_PGM`, `MRR_TCK` and `MRR_NMI`. -/
def mrrPgm : Word := 0x04

def mrrTck : Word := 0x02

def mrrNmi : Word := 0x01

/-- `msp_reset`. -/
def mspReset : ModuleProg Unit := do
  mcall (.writel .mspReset ((mrrPgm ||| mrrTck) &&& ~~~mrrNmi))
  mcall (.delayJiffies 1)
  mcall (.writel .mspReset (mrrPgm ||| mrrTck ||| mrrNmi))
  mcall (.delayJiffies 1)
  mcall (.writel .mspReset ((mrrNmi ||| mrrTck) &&& ~~~mrrPgm))
  mcall (.delayJiffies 1)

/-- `msp_init`, without the interrupt of the port. It keeps the address of the mapping. -/
def mspInit (iobase : Word) : ModuleProg (Except ℤ Word) := do
  let iobase ← mcall (.ioremapNocache iobase mspIorange)
  let ret ← mcall (.checkMemRegion iobase mspIorange)
  if ret < 0 then pure (.error ret)
  else do
    let region ← mcall (.requestMemRegion iobase mspIorange)
    if !region then pure (.error (-eNoDev))
    else do
      let ret ← mcall (.registerChrdev mspMajor)
      if ret < 0 then do
        mcall (.releaseMemRegion iobase mspIorange)
        pure (.error ret)
      else do
        mcall .sspSetup
        mspReset
        pure (.ok iobase)

/-- `msp_exit`, without the interrupt of the port. -/
def mspExit (iobase : Word) : ModuleProg Unit := do
  mcall (.unregisterChrdev mspMajor)
  releaseIo iobase mspIorange

/-! ## Loading and unloading -/

/-- The modules that are loaded. -/
structure Modules where
  libera : Option LiberaLoaded
  msp : Option Word

/-- What is done with the modules. -/
inductive ModuleOp
  | insmodLibera (p : LiberaParams)
  | rmmodLibera
  | insmodMsp (iobase : Word)
  | rmmodMsp

/-- `EEXIST` and `ENOENT`. -/
def eExist : ℤ := 17

def eNoEnt : ℤ := 2

/-- One of these operations. The kernel loads a module that is not loaded, and keeps it if its
`init` returns `0`; it unloads a module that is. -/
def Modules.step : ModuleOp → Modules → ModuleProg (ℤ × Modules)
  | .insmodLibera p, s =>
    if s.libera.isSome then pure (-eExist, s)
    else do
      let r ← liberaInit p
      pure (match r with
        | .ok x => (0, { s with libera := some x })
        | .error ret => (ret, s))
  | .rmmodLibera, s =>
    match s.libera with
    | none => pure (-eNoEnt, s)
    | some x => do
      liberaExit x
      pure (0, { s with libera := none })
  | .insmodMsp iobase, s =>
    if s.msp.isSome then pure (-eExist, s)
    else do
      let r ← mspInit iobase
      pure (match r with
        | .ok iobase => (0, { s with msp := some iobase })
        | .error ret => (ret, s))
  | .rmmodMsp, s =>
    match s.msp with
    | none => pure (-eNoEnt, s)
    | some iobase => do
      mspExit iobase
      pure (0, { s with msp := none })

end LiberaDaq.Kernel
