import LiberaDaq.Cspi.System
import Mathlib.Data.List.OfFn

/-!
# The configuration device

The configuration device keeps the parameters of the instrument in an array of the driver, the
mirror, and passes them to the registers of the FPGA (`libera_cfg.c`, `ebpp.c`). Most parameters go
to a register as they are set. The parameters of the interlock group and of the post-mortem group
are only mirrored, until the last one of the group takes all of them to the registers; the
coefficients of a filter go to a FIFO of the FPGA with the last of them.

The arithmetic is that of 32-bit words. A register that is read gives back what was written last.
-/

namespace LiberaDaq.Kernel

open LiberaDaq.Cspi

/-! ## The device -/

/-- The registers of the FPGA that the device reads or writes. `FA_OFFSET` is the first of five. -/
inductive CfgRegister
  | faOffset (i : Fin 5)
  | ilkControl | ilkXlow | ilkXhigh | ilkYlow | ilkYhigh
  | dscIlkGainLimit | dscIlkOverflowLimit | dscIlkOverflowDur
  | pmXlow | pmXhigh | pmYlow | pmYhigh | dscPmOverflowLimit | dscPmOverflowDur
  | tTrigDelay | dscSwSource | dscSwDelay | ddcMafLength | ddcMafDelay
  | faEnable | faAveStop | faAveWin | faStart | faWindow
  | adcMax | faNsums | faSumsumsLsw | faSumsumsMsw | fpgaFeatureCustomer
  deriving DecidableEq, Repr

/-- The registers behind which the FPGA has a FIFO, and the one that resets it. -/
inductive CfgPort
  | faFifoReset | faNotch1 | faNotch2 | faPolyphaseFir
  deriving DecidableEq, Repr

/-- What is fixed when the driver was loaded: the members of `lgbl` that the device reads, and the
parameters of the module. -/
structure Global where
  feature : Word
  d : Word
  dfa : Word
  numDfir : ℕ
  kadc : Word
  ilkdur : Word
  pmdur : Word

/-- `struct libera_cfg_device` with the registers, and the words that went to the ports. -/
structure CfgDevice where
  param : CfgIndex → Word
  reg : CfgRegister → Word
  sent : List (CfgPort × Word)
  pmFreezed : Bool

namespace CfgDevice

/-- An assignment to the mirror. -/
def mirror (d : CfgDevice) (idx : CfgIndex) (val : Word) : CfgDevice :=
  { d with param := Function.update d.param idx val }

/-- `writel` to a register. -/
def writel (d : CfgDevice) (val : Word) (r : CfgRegister) : CfgDevice :=
  { d with reg := Function.update d.reg r val }

/-- `writel` to a port. -/
def push (d : CfgDevice) (val : Word) (p : CfgPort) : CfgDevice :=
  { d with sent := d.sent ++ [(p, val)] }

/-- The coefficients of a filter, as its loop writes them. -/
def writeCoeffs (d : CfgDevice) (p : CfgPort) (vals : List Word) : CfgDevice :=
  vals.foldl (fun d v => d.push v p) (d.push 1 .faFifoReset)

end CfgDevice

/-! ## Encodings -/

/-- `MAXDUR`. -/
def maxdur : Word := 4095

/-- `scale_kadc`. -/
def scaleKadc (g : Global) (limit : Word) : Word :=
  let overflowLimit := (limit &&& 0x0000ffff).toNat * (g.kadc * g.kadc).toNat
  BitVec.ofNat 32 (overflowLimit % 2 ^ 64 / 10 ^ 6)

/-- The largest overflow limit. -/
def maxLimit (g : Global) : Word := if liberaIsBrilliance g.feature then 32767 else 2047

/-- What the mirror holds of an overflow limit: the count, and its square over 256. -/
def overflowEntry (g : Global) (val : Word) : Word :=
  let adcCount := val >>> (if liberaIsBrilliance g.feature then 4 else 0)
  (val <<< 16) ||| (((adcCount * adcCount) >>> 8) &&& 0x0000ffff)

/-! ## `libera_cfg_set_specific` -/

namespace CfgDevice

/-- The interlock group, passed to the FPGA. -/
def commitIlk (g : Global) (d : CfgDevice) : CfgDevice :=
  let d := d.writel (d.param (.ilk .xlow)) .ilkXlow
  let d := d.writel (d.param (.ilk .xhigh)) .ilkXhigh
  let d := d.writel (d.param (.ilk .ylow)) .ilkYlow
  let d := d.writel (d.param (.ilk .yhigh)) .ilkYhigh
  let d := d.writel (d.param (.ilk .gainLimit) &&& 0x0000ffff) .dscIlkGainLimit
  let d := d.writel (scaleKadc g (d.param (.ilk .overflowLimit))) .dscIlkOverflowLimit
  let d := d.writel (d.param (.ilk .overflowDur)) .dscIlkOverflowDur
  d.writel (d.param (.ilk .mode)) .ilkControl

/-- The post-mortem group, passed to the FPGA. -/
def commitPm (g : Global) (d : CfgDevice) : CfgDevice :=
  let val := d.reg .tTrigDelay &&& 0xFFFF3FFF
  let d := d.writel (val ||| ((d.param (.pm .mode) &&& 3) <<< 14)) .tTrigDelay
  let d := d.writel (d.param (.pm .minXLimit)) .pmXlow
  let d := d.writel (d.param (.pm .maxXLimit)) .pmXhigh
  let d := d.writel (d.param (.pm .minYLimit)) .pmYlow
  let d := d.writel (d.param (.pm .maxYLimit)) .pmYhigh
  let d := d.writel (scaleKadc g (d.param (.pm .overflowLimit))) .dscPmOverflowLimit
  d.writel (d.param (.pm .overflowDur)) .dscPmOverflowDur

/-- The case of the two overflow limits. -/
def setOverflowLimit (g : Global) (d : CfgDevice) (idx : CfgIndex) (val : Word) :
    Option CfgDevice :=
  if val ≤ maxLimit g then some (d.mirror idx (overflowEntry g val)) else none

/-- The case of `LIBERA_CFG_EXTSWITCH`. -/
def setExtswitch (d : CfgDevice) (val : Word) : CfgDevice :=
  let source := d.reg .dscSwSource
  let source := if val ≠ 0 then source ||| 0x80000000 else source &&& 0x7fffffff
  (d.writel source .dscSwSource).mirror .extswitch val

/-- The case of `LIBERA_CFG_TRIGDELAY`. -/
def setTrigdelay (d : CfgDevice) (val : Word) : CfgDevice :=
  let d := d.mirror .trigdelay val
  d.writel ((d.reg .tTrigDelay &&& 0xc000ffff) ||| ((val &&& 0x3fff) <<< 16)) .tTrigDelay

/-- The case of `LIBERA_CFG_SR_AVERAGE_WINDOW`, which disables the spike removal of the FPGA for a
moment. -/
def setAverageWindow (d : CfgDevice) (val : Word) : CfgDevice :=
  let d := d.mirror (.sr .averageWindow) val
  let enable := d.param (.sr .enable)
  let d := if enable ≠ 0 then d.writel 0 .faEnable else d
  let d := d.writel (val &&& 0x1F) .faAveWin
  if enable ≠ 0 then d.writel 1 .faEnable else d

/-- The coefficients of the polyphase filter that the mirror holds. -/
def firCoeffs (d : CfgDevice) (n : ℕ) : List Word :=
  ((List.finRange firMax).take n).map fun i => d.param (.polyphaseFir i)

/-- The default case: a coefficient. -/
def setCoeff (g : Global) (d : CfgDevice) : CfgIndex → Word → Option CfgDevice
  | .notch1 i, val =>
    let d := d.mirror (.notch1 i) val
    if i.val = notchMax - 1 then
      some (d.writeCoeffs .faNotch1 (List.ofFn fun i => d.param (.notch1 i)))
    else some d
  | .notch2 i, val =>
    let d := d.mirror (.notch2 i) val
    if i.val = notchMax - 1 then
      some (d.writeCoeffs .faNotch2 (List.ofFn fun i => d.param (.notch2 i)))
    else some d
  | .polyphaseFir i, val =>
    let d := d.mirror (.polyphaseFir i) val
    if i.val + 1 = g.numDfir then
      some (d.writeCoeffs .faPolyphaseFir (d.firCoeffs g.numDfir))
    else some d
  | _, _ => none

/-- `libera_cfg_set_specific`; `none` stands for `-EINVAL`, and then nothing has changed. -/
def setSpecific (g : Global) (d : CfgDevice) (idx : CfgIndex) (val : Word) : Option CfgDevice :=
  match idx with
  | .xoffset => some ((d.mirror .xoffset val).writel (val + d.param .bcdXoffset) (.faOffset 0))
  | .yoffset => some ((d.mirror .yoffset val).writel (val + d.param .bcdYoffset) (.faOffset 1))
  | .qoffset => some ((d.mirror .qoffset val).writel val (.faOffset 2))
  | .kx => some ((d.mirror .kx val).writel val (.faOffset 3))
  | .ky => some ((d.mirror .ky val).writel val (.faOffset 4))
  | .ilk .xlow | .ilk .xhigh | .ilk .ylow | .ilk .yhigh | .ilk .mode
  | .pm .mode | .pm .minXLimit | .pm .maxXLimit | .pm .minYLimit | .pm .maxYLimit =>
    some (d.mirror idx val)
  | .pm .overflowLimit | .ilk .overflowLimit => d.setOverflowLimit g idx val
  | .ilk .overflowDur => if val ≤ g.ilkdur ∧ val ≤ maxdur then some (d.mirror idx val) else none
  | .ilk .gainLimit => some ((d.mirror idx val).commitIlk g)
  | .ilkstatus => some (d.mirror .ilkstatus 0)
  | .pmoffset => some (d.mirror .pmoffset val)
  | .pmdec => some (d.mirror .pmdec val)
  | .extswitch => some (d.setExtswitch val)
  | .swdelay => some ((d.mirror .swdelay val).writel val .dscSwDelay)
  | .ddcMaflength => some (d.writel val .ddcMafLength)
  | .ddcMafdelay => some (d.writel val .ddcMafDelay)
  | .trigdelay => some (d.setTrigdelay val)
  | .pm .overflowDur =>
    if val ≤ g.pmdur ∧ val ≤ maxdur then
      some { (d.mirror idx val).commitPm g with pmFreezed := false }
    else none
  | .sr .enable => some ((d.mirror idx val).writel val .faEnable)
  | .sr .cspiEnable => some (d.mirror idx val)
  | .sr .averagingStop => some ((d.mirror idx val).writel (val &&& 0x1F) .faAveStop)
  | .sr .averageWindow => some (d.setAverageWindow val)
  | .sr .start => some ((d.mirror idx val).writel (val &&& 0x1F) .faStart)
  | .sr .window => some ((d.mirror idx val).writel (val &&& 0x7F) .faWindow)
  | .sp .threshold | .sp .nBefore | .sp .nAfter => some (d.mirror idx val)
  | _ => d.setCoeff g idx val

/-- The case `LIBERA_IOC_SET_CFG` of `libera_cfg_cmd`. -/
def setCfg (g : Global) (d : CfgDevice) (idx : CfgIndex) (val : Word) : Option CfgDevice :=
  match idx with
  | .trigmode => some (d.mirror .trigmode val)
  | .mcpll | .scpll => none
  | _ => d.setSpecific g idx val

/-! ## `libera_cfg_get_specific` -/

/-- The case of `LIBERA_CFG_AVERAGE_SUM`. -/
def averageSum (d : CfgDevice) : Word :=
  let denominator := d.reg .faNsums
  let dividend1 := (d.reg .faSumsumsLsw).toNat
  let dividend2 := (d.reg .faSumsumsMsw).toNat
  if 0 < denominator then
    BitVec.ofNat 32 ((dividend1 + dividend2 * 2 ^ 32) / denominator.toNat)
  else 0

/-- `libera_cfg_get_specific`; `none` stands for `-EINVAL`. -/
def getSpecific (g : Global) (d : CfgDevice) (idx : CfgIndex) : Option Word :=
  match idx with
  | .xoffset | .yoffset | .qoffset | .kx | .ky
  | .ilk _ | .ilkstatus | .pmoffset | .pmdec | .extswitch | .swdelay | .trigdelay
  | .bcdXoffset | .bcdYoffset | .pm _ | .sr _ | .sp _ => some (d.param idx)
  | .decDdc => some g.d
  | .dfa => some g.dfa
  | .ddcMaflength => some (d.reg .ddcMafLength)
  | .ddcMafdelay => some (d.reg .ddcMafDelay)
  | .maxAdc => some (d.reg .adcMax &&& 0xFFFF)
  | .averageSum => some d.averageSum
  | _ => none

/-- The case `LIBERA_IOC_GET_CFG` of `libera_cfg_cmd`. -/
def getCfg (g : Global) (d : CfgDevice) (idx : CfgIndex) : Option Word :=
  match idx with
  | .trigmode | .mcpll | .scpll => some (d.param idx)
  | .featureCustomer => some (d.reg .fpgaFeatureCustomer)
  | .featureItech => some g.feature
  | _ => d.getSpecific g idx

/-! ## `libera_dsc.c` -/

/-- `check_and_update`, with the register of the parameter `fixIdx`. -/
def checkAndUpdate (d : CfgDevice) (bcdVal : Word) (bcdIdx fixIdx : CfgIndex) (r : CfgRegister) :
    CfgDevice :=
  if bcdVal ≠ d.param bcdIdx then
    (d.mirror bcdIdx bcdVal).writel (bcdVal + d.param fixIdx) r
  else d

/-- The case `LIBERA_DSC_BCD_OFFSETS` of `libera_dsc_ioctl`. -/
def bcdOffsets (d : CfgDevice) (x y : Word) : CfgDevice :=
  (d.checkAndUpdate x .bcdXoffset .xoffset (.faOffset 0)).checkAndUpdate y .bcdYoffset .yoffset
    (.faOffset 1)

/-! ## `libera_init_specific` -/

/-- `ilk_adc`. -/
def ilkAdc (g : Global) : Word := if liberaIsBrilliance g.feature then 30000 else 1900

/-- The initial mirror, on registers that the FPGA came up with. The array was cleared before. -/
def initMirror (g : Global) (reg : CfgRegister → Word) : CfgIndex → Word
  | .kx | .ky => 10000000
  | .ilk .xlow | .ilk .ylow | .pm .minXLimit | .pm .minYLimit => -1000000
  | .ilk .xhigh | .ilk .yhigh | .pm .maxXLimit | .pm .maxYLimit => 1000000
  | .ilk .mode => 0x03
  | .ilk .overflowLimit | .pm .overflowLimit => ilkAdc g
  | .ilk .overflowDur | .pm .overflowDur => 5
  | .ilk .gainLimit =>
    if liberaIsBrilliance g.feature then ((-40 : Word) <<< 16) ||| 0
    else ((-40 : Word) <<< 16) ||| 32
  | .pmdec => 1
  | .sr .enable => reg .faEnable
  | .sr .cspiEnable => 1
  | .sr .averagingStop => reg .faAveStop
  | .sr .averageWindow => reg .faAveWin
  | .sr .start => reg .faStart
  | .sr .window => reg .faWindow
  | .sp .threshold => if liberaIsBrilliance g.feature then 400 else 100
  | .sp .nBefore => 1
  | .sp .nAfter => g.d / 3
  | .trigmode => trigmodeGet
  | _ => 0

/-- The parameters from `LIBERA_CFG_CUSTOM_FIRST` up to `LIBERA_CFG_CUSTOM_LAST`. -/
def customIndices : List CfgIndex :=
  [.xoffset, .yoffset, .qoffset, .kx, .ky,
    .ilk .xlow, .ilk .xhigh, .ilk .ylow, .ilk .yhigh, .ilk .mode, .ilk .overflowLimit,
    .ilk .overflowDur, .ilk .gainLimit,
    .pm .mode, .pm .minXLimit, .pm .maxXLimit, .pm .minYLimit, .pm .maxYLimit, .pm .overflowLimit,
    .pm .overflowDur,
    .sr .enable, .sr .cspiEnable, .sr .averagingStop, .sr .averageWindow, .sr .start, .sr .window,
    .sp .threshold, .sp .nBefore, .sp .nAfter]

/-- A step of the loop over the parameters, which does not look at what the setting returns. -/
def initParam (g : Global) (d : CfgDevice) (idx : CfgIndex) : CfgDevice :=
  (d.setSpecific g idx (d.param idx)).getD d

/-- The device when the driver was loaded, on the registers that the FPGA came up with:
`libera_init_specific`. -/
def initSpecific (g : Global) (reg : CfgRegister → Word) : CfgDevice :=
  customIndices.foldl (initParam g) ⟨initMirror g reg, reg, [], false⟩

example : customIndices.map CfgIndex.code = List.range' 128 29 := by decide

end CfgDevice

end LiberaDaq.Kernel
