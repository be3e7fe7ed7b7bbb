import LiberaDaq.Cspi.Library

/-!
# Environment parameters

`cspi_setenvparam` and `cspi_getenvparam` with what they call in `cspi.c` and `ebpp.c`. Most
parameters are those of the configuration device: a table says for each its bit, its index, the
member of `CSPI_ENVPARAMS` that holds it and the function that validates it, and one loop walks
the table (`handle_params`). The members of a group share one bit. The others are exchanged with the
health sensors, the feature register, the DSC server and the PLL daemon.

A call that fails stops there: what it set before remains set. Some validators write to the
structure of the caller.
-/

namespace LiberaDaq.Cspi

open LiberaDaq.Interaction

/-! ## Validators -/

/-- A validator: it tests a value, or it adapts the value to the other side of the interface. -/
inductive Validator
  | none
  | check (ok : Word → Bool)
  | setGainlimit
  | getOverflowlimit
  | getGainlimit

/-- The value is an `int` between two bounds. -/
def inRange (lo hi : ℤ) (w : Word) : Bool := lo ≤ w.toInt && w.toInt ≤ hi

/-- `is_validtrigmode`. -/
def isValidtrigmode (w : Word) : Bool := w = trigmodeGet || w = trigmodeSet

def ebppIsValidcoef (w : Word) : Bool := w ≤ 536870911

def ebppIsValidoffset : Word → Bool := inRange (-536870912) 536870911

/-- `ebpp_is_validswitch`. Its last two conditions are joined by `||`. -/
def ebppIsValidswitch (w : Word) : Bool := w = 0xff || w = switchDirect || 0x00 ≤ w || w ≤ 0x0f

def ebppIsValidgain : Word → Bool := inRange (-80) 0

def ebppIsValidagc (w : Word) : Bool := w = 0 || w = 1

def ebppIsValiddsc (w : Word) : Bool := w = 0 || w = 1 || w = 2 || w = 3

def ebppIsValidilk (w : Word) : Bool := w = 0 || w = 1 || w = 3

def ebppIsValidpmoffset (w : Word) : Bool := -524288 < w.toInt && w.toInt < 524288

def ebppIsValiddecimation (w : Word) : Bool := w = 1 || w = 64

def ebppIsValidtrigdelay : Word → Bool := inRange 0 0x3fff

/-- `ebpp_is_validmafparameter`, which compares with `g_decimation` without sign. -/
def ebppIsValidmafparameter (decimation w : Word) : Bool := 0 ≤ w.toInt && w < decimation

def ebppIsValidInt25 : Word → Bool := inRange (-0x1000000) 0xFFFFFF

def ebppIsValidInt5 : Word → Bool := inRange (-16) 15

/-- The loop of `ebpp_is_valid_averagewindow`: `val` without its trailing zeros. -/
def shiftOut : ℕ → Word → Word
  | 0, val => val
  | n + 1, val => if val &&& 1 = 0 ∧ val ≠ 0 then shiftOut n (val >>> 1) else val

/-- `ebpp_is_valid_averagewindow`. -/
def ebppIsValidAveragewindow (w : Word) : Bool :=
  if 16 < w then false else shiftOut 5 (w &&& 0x1F) >>> 1 = 0

def ebppIsValidUint7 : Word → Bool := inRange 0 127

def ebppIsValidInt16 : Word → Bool := inRange (-32768) 32767

def ebppIsValidBool : Word → Bool := inRange 0 1

def ebppIsValidPmmode : Word → Bool := inRange 0 2

def ebppIsValidSpint : Word → Bool := inRange 0 1023

def ebppIsValidOverflowlimit : Word → Bool := inRange 0 32766

def ebppIsValidoverflowdur : Word → Bool := inRange 0 1023

def ebppIsValidMtvcxoffset : Word → Bool := inRange (-500) 500

def ebppIsValidMtncoshft (w : Word) : Bool := w = 0 || w = 1

def ebppIsValidMtphsoffs : Word → Bool := inRange (-6250) 6250

def ebppIsValidMtunlcktr : Word → Bool := inRange 1 30000

def ebppIsValidMtsyncin (w : Word) : Bool := 0 ≤ w.toInt

def ebppIsValidStunlcktr : Word → Bool := inRange 1 30000

/-- What a validator says of a value, and the value that it leaves. -/
def Validator.run : Validator → Word → LibProg (Bool × Word)
  | .none, w => pure (true, w)
  | .check ok, w => pure (ok w, w)
  | .setGainlimit, w => do
    let attn ← sys (.toattn w)
    if attn = -1 then pure (false, w)
    else pure (true, (w <<< 16) ||| (BitVec.ofInt 32 attn &&& 0x0000ffff))
  | .getOverflowlimit, w => pure (true, w >>> 16)
  | .getGainlimit, w => pure (true, w.sshiftRight 16)

/-! ## The tables -/

/-- An entry of a `Param_map`. -/
structure ParamMap where
  mask : Bitmask
  code : CfgIndex
  field : EnvField
  validate : Validator

/-- The entry of a member of the interlock group, and of the other groups. -/
def paramIlk (m : IlkMember) (v : Validator) : ParamMap := ⟨envIlk, .ilk m, .ilk m, v⟩

def paramPm (m : PmMember) (v : Validator) : ParamMap := ⟨envPm, .pm m, .pm m, v⟩

def paramSr (m : SrMember) (v : Validator) : ParamMap := ⟨envSr, .sr m, .sr m, v⟩

def paramSp (m : SpMember) (v : Validator) : ParamMap := ⟨envSp, .sp m, .sp m, v⟩

/-- The table of `base_setenvparam`. -/
def baseSetMap : List ParamMap := [⟨envTrigmode, .trigmode, .trigMode, .check isValidtrigmode⟩]

/-- The table of `custom_setenvparam`. -/
def customSetMap (decimation : Word) : List ParamMap :=
  [⟨envKx, .kx, .kx, .check ebppIsValidcoef⟩,
    ⟨envKy, .ky, .ky, .check ebppIsValidcoef⟩,
    ⟨envXoffset, .xoffset, .xoffset, .check ebppIsValidoffset⟩,
    ⟨envYoffset, .yoffset, .yoffset, .check ebppIsValidoffset⟩,
    ⟨envQoffset, .qoffset, .qoffset, .check ebppIsValidoffset⟩,
    paramIlk .mode (.check ebppIsValidilk),
    paramIlk .xlow (.check ebppIsValidInt25),
    paramIlk .xhigh (.check ebppIsValidInt25),
    paramIlk .ylow (.check ebppIsValidInt25),
    paramIlk .yhigh (.check ebppIsValidInt25),
    paramIlk .overflowDur (.check ebppIsValidoverflowdur),
    paramIlk .overflowLimit (.check ebppIsValidOverflowlimit),
    paramIlk .gainLimit .setGainlimit,
    ⟨envIlkstatus, .ilkstatus, .ilkStatus, .none⟩,
    ⟨envPmoffset, .pmoffset, .pmOffset, .check ebppIsValidpmoffset⟩,
    ⟨envPmdec, .pmdec, .pmDec, .check ebppIsValiddecimation⟩,
    ⟨envTrigdelay, .trigdelay, .trigDelay, .check ebppIsValidtrigdelay⟩,
    ⟨envExtswitch, .extswitch, .externalSwitching, .none⟩,
    ⟨envSwdelay, .swdelay, .switchingDelay, .none⟩,
    ⟨envDdcMaflength, .ddcMaflength, .ddcMaflength, .check (ebppIsValidmafparameter decimation)⟩,
    ⟨envDdcMafdelay, .ddcMafdelay, .ddcMafdelay, .check (ebppIsValidmafparameter decimation)⟩,
    paramPm .mode (.check ebppIsValidPmmode),
    paramPm .minXLimit (.check ebppIsValidInt25),
    paramPm .maxXLimit (.check ebppIsValidInt25),
    paramPm .minYLimit (.check ebppIsValidInt25),
    paramPm .maxYLimit (.check ebppIsValidInt25),
    paramPm .overflowLimit (.check ebppIsValidOverflowlimit),
    paramPm .overflowDur (.check ebppIsValidoverflowdur),
    paramSr .enable (.check ebppIsValidBool),
    paramSr .cspiEnable (.check ebppIsValidBool),
    paramSr .averagingStop (.check ebppIsValidInt5),
    paramSr .averageWindow (.check ebppIsValidAveragewindow),
    paramSr .start (.check ebppIsValidInt5),
    paramSr .window (.check ebppIsValidUint7),
    paramSp .threshold (.check ebppIsValidInt16),
    paramSp .nBefore (.check ebppIsValidSpint),
    paramSp .nAfter (.check ebppIsValidSpint)]

/-- The table of `set_coeff`. -/
def coeffMap : List ParamMap :=
  (List.finRange notchMax).map (fun i => ⟨envNotch1, .notch1 i, .notch1 i, .none⟩) ++
    ((List.finRange notchMax).map (fun i => ⟨envNotch2, .notch2 i, .notch2 i, .none⟩) ++
      (List.finRange firMax).map fun i =>
        ⟨envPolyphaseFir, .polyphaseFir i, .polyphaseFir i, .none⟩)

/-- The table of `base_getenvparam`. -/
def baseGetMap : List ParamMap :=
  [⟨envTrigmode, .trigmode, .trigMode, .none⟩,
    ⟨envPll, .scpll, .pllSc, .none⟩,
    ⟨envPll, .mcpll, .pllMc, .none⟩]

/-- The table of `custom_getenvparam`. -/
def customGetMap : List ParamMap :=
  [⟨envKx, .kx, .kx, .none⟩,
    ⟨envKy, .ky, .ky, .none⟩,
    ⟨envXoffset, .xoffset, .xoffset, .none⟩,
    ⟨envYoffset, .yoffset, .yoffset, .none⟩,
    ⟨envQoffset, .qoffset, .qoffset, .none⟩,
    paramIlk .mode .none,
    paramIlk .xlow .none,
    paramIlk .xhigh .none,
    paramIlk .ylow .none,
    paramIlk .yhigh .none,
    paramIlk .overflowDur .none,
    paramIlk .overflowLimit .getOverflowlimit,
    paramIlk .gainLimit .getGainlimit,
    ⟨envIlkstatus, .ilkstatus, .ilkStatus, .none⟩,
    ⟨envPmoffset, .pmoffset, .pmOffset, .none⟩,
    ⟨envPmdec, .pmdec, .pmDec, .none⟩,
    ⟨envTrigdelay, .trigdelay, .trigDelay, .none⟩,
    ⟨envExtswitch, .extswitch, .externalSwitching, .none⟩,
    ⟨envSwdelay, .swdelay, .switchingDelay, .none⟩,
    ⟨envDdcMaflength, .ddcMaflength, .ddcMaflength, .none⟩,
    ⟨envDdcMafdelay, .ddcMafdelay, .ddcMafdelay, .none⟩,
    ⟨envMaxAdc, .maxAdc, .maxAdc, .none⟩,
    ⟨envAverageSum, .averageSum, .averageSum, .none⟩,
    paramPm .mode .none,
    paramPm .minXLimit .none,
    paramPm .maxXLimit .none,
    paramPm .minYLimit .none,
    paramPm .maxYLimit .none,
    paramPm .overflowLimit .getOverflowlimit,
    paramPm .overflowDur .none,
    paramSr .enable .none,
    paramSr .cspiEnable .none,
    paramSr .averagingStop .none,
    paramSr .averageWindow .none,
    paramSr .start .none,
    paramSr .window .none,
    paramSp .threshold .none,
    paramSp .nBefore .none,
    paramSp .nAfter .none]

/-! ## The configuration device -/

/-- A code and the structure of the caller, as a step on parameters leaves them. -/
abbrev ParamResult := ℤ × EnvParams

/-- The next step, after one that succeeded. -/
def ParamResult.andThen (r : ParamResult) (k : EnvParams → LibProg ParamResult) :
    LibProg ParamResult :=
  if r.1 = cspiOk then k r.2 else pure r

/-- `set_param`. -/
def setParam (fd : Option File) (e : ParamMap) (p : EnvParams) : LibProg ParamResult := do
  let (ok, w) ← e.validate.run (p.val e.field)
  let p := p.set e.field w
  if ok then do
    let set ← onFile fd false fun f => sys (.setCfg f e.code w)
    pure (if set then cspiOk else cspiESystem, p)
  else pure (cspiEInvalidParam, p)

/-- `get_param`. -/
def getParam (fd : Option File) (e : ParamMap) (p : EnvParams) : LibProg ParamResult := do
  let val ← onFile fd none fun f => sys (.getCfg f e.code)
  match val with
  | none => pure (cspiESystem, p)
  | some w => do
    let (ok, w) ← e.validate.run w
    pure (if ok then cspiOk else cspiEInvalidParam, p.set e.field w)

/-- `handle_params`, with `set_param` or `get_param` as its `proxy`. -/
def handleParams (proxy : ParamMap → EnvParams → LibProg ParamResult) (flags : Bitmask) :
    List ParamMap → EnvParams → LibProg ParamResult
  | [], p => pure (cspiOk, p)
  | e :: es, p =>
    if flags.hits e.mask then do
      let r ← proxy e p
      r.andThen (handleParams proxy flags es)
    else handleParams proxy flags es p

/-- `cspi_getfeatureparam`. -/
def getfeatureparam (fd : Option File) (flags : Bitmask) (p : EnvParams) : LibProg ParamResult :=
  if flags.hits envFeature then do
    let customer ← onFile fd none fun f => sys (.getCfg f .featureCustomer)
    match customer with
    | none => pure (cspiESystem, p)
    | some w => do
      let p := p.set .featureCustomer w
      let itech ← onFile fd none fun f => sys (.getCfg f .featureItech)
      match itech with
      | none => pure (cspiESystem, p)
      | some w => pure (cspiOk, p.set .featureItech w)
  else pure (cspiOk, p)

/-- `base_setenvparam`, with `cspi_sethealthparam` and `cspi_setfeatureparam`: health and feature
parameters cannot be set. -/
def baseSetenvparam (fd : Option File) (flags : Bitmask) (p : EnvParams) : LibProg ParamResult :=
  if flags = 0 then pure (cspiOk, p)
  else do
    let r ← handleParams (setParam fd) flags baseSetMap p
    r.andThen fun p =>
      pure (if flags.hits envHealth || flags.hits envFeature then cspiEIllegalCall else cspiOk, p)

/-- The member of the structure with the value of a sensor that was reached. -/
def EnvParams.put (p : EnvParams) (f : EnvField) (w : Option Word) : EnvParams :=
  match w with
  | some w => p.set f w
  | none => p

/-- The structure with the values of the health sensors. -/
def EnvParams.setHealth (p : EnvParams) (h : Health) : EnvParams :=
  let p := (List.finRange 2).foldl (fun p i => p.put (.fan i) (h.fan i)) (p.put .temp h.temp)
  (List.finRange 8).foldl (fun p i => p.put (.voltage i) (h.voltage i)) p

/-- `cspi_gethealthparam`. -/
def gethealthparam (flags : Bitmask) (p : EnvParams) : LibProg ParamResult :=
  if flags.hits envHealth then do
    let (rc, h) ← sys .health
    pure (rc, p.setHealth h)
  else pure (cspiOk, p)

/-- `base_getenvparam`. -/
def baseGetenvparam (fd : Option File) (flags : Bitmask) (p : EnvParams) : LibProg ParamResult :=
  if flags = 0 then pure (cspiOk, p)
  else do
    let r ← handleParams (getParam fd) flags baseGetMap p
    let r ← r.andThen (gethealthparam flags)
    r.andThen (getfeatureparam fd flags)

/-! ## The DSC server -/

/-- The value that a message to the DSC server carries. -/
inductive DscValue
  | int (f : EnvField) | frev | none

/-- An entry of a `DSC_param_map`. -/
structure DscParamMap where
  mask : Bitmask
  msg : DscMessage
  value : DscValue
  validate : Option (Word → Bool) := none

/-- The value that is sent. -/
def DscValue.sent : DscValue → EnvParams → BitVec 64
  | .int f, p => (p.val f).setWidth 64
  | .frev, p => p.frev
  | .none, _ => 0

/-- The structure with the value of a reply. -/
def DscValue.received : DscValue → BitVec 64 → EnvParams → EnvParams
  | .int f, v, p => p.set f (v.setWidth 32)
  | .frev, v, p => { p with frev := v }
  | .none, _, p => p

/-- The validator of an entry accepts its value. -/
def DscParamMap.valid (e : DscParamMap) (p : EnvParams) : Bool :=
  match e.validate, e.value with
  | some ok, .int f => ok (p.val f)
  | _, _ => true

/-- `ebpp_dsc_handle_params`. -/
def ebppDscHandleParams (flags : Bitmask) : List DscParamMap → EnvParams → LibProg ParamResult
  | [], p => pure (cspiOk, p)
  | e :: es, p =>
    if flags.hits e.mask then
      if e.valid p then do
        let (rc, reply) ← sys (.dscMessage e.msg (e.value.sent p))
        let p := reply.elim p fun v => e.value.received v p
        ParamResult.andThen (rc, p) (ebppDscHandleParams flags es)
      else pure (cspiEInvalidParam, p)
    else ebppDscHandleParams flags es p

/-- The table of `ebpp_setdscparam`. The interlock bit makes the server apply its settings. -/
def dscSetMap : List DscParamMap :=
  [⟨envSwitch, .setSwitch, .int .switches, some ebppIsValidswitch⟩,
    ⟨envAgc, .setAgc, .int .agc, some ebppIsValidagc⟩,
    ⟨envGain, .setGain, .int .gain, some ebppIsValidgain⟩,
    ⟨envDsc, .setDsc, .int .dsc, some ebppIsValiddsc⟩,
    ⟨envIlk, .applySettings, .none, none⟩]

/-- The table of `ebpp_getdscparam`. -/
def dscGetMap : List DscParamMap :=
  [⟨envSwitch, .getSwitch, .int .switches, none⟩,
    ⟨envGain, .getGain, .int .gain, none⟩,
    ⟨envAgc, .getAgc, .int .agc, none⟩,
    ⟨envDsc, .getDsc, .int .dsc, none⟩,
    ⟨envFrev, .getFrev, .frev, none⟩]

/-- The test of `ebpp_setdscparam`. When `fcntl` fails, its `-1` has the bit of `O_RDWR`. -/
def mayWrite (fd : Option File) : LibProg Bool :=
  onFile fd true fun f => do
    let a ← sys (.getfl f)
    pure (a.all (· = .rdwr))

/-- What `CSPI_SWITCH_DIRECT` stands for. -/
def directSwitches (itech : Word) : Word :=
  if liberaIsBrilliance itech then switchDirectBrilliance else switchDirectNotbrilliance

/-- The value `CSPI_SWITCH_DIRECT` of the caller, replaced by what it stands for. -/
def resolveSwitches (fd : Option File) (p : EnvParams) : LibProg ParamResult :=
  if p.val .switches = switchDirect then do
    let r ← getfeatureparam fd envFeature p
    r.andThen fun p => pure (cspiOk, p.set .switches (directSwitches (p.val .featureItech)))
  else pure (cspiOk, p)

/-- `ebpp_setdscparam`. -/
def ebppSetdscparam (fd : Option File) (flags : Bitmask) (p : EnvParams) : LibProg ParamResult := do
  if ← mayWrite fd then do
    let r ← resolveSwitches fd p
    r.andThen (ebppDscHandleParams flags dscSetMap)
  else pure (cspiESystem, p)

/-! ## The PLL daemon -/

/-- An entry of the table of `ebpp_set_pllparam`: the letter of its command goes with it. -/
structure PllParamMap where
  mask : Bitmask
  field : EnvField
  cmd : Char
  validate : Word → Bool

/-- The table of `ebpp_set_pllparam`. -/
def pllSetMap : List PllParamMap :=
  [⟨envMtvcxoffs, .mtvcxoffs, 'o', ebppIsValidMtvcxoffset⟩,
    ⟨envMtncoshft, .mtncoshft, 'c', ebppIsValidMtncoshft⟩,
    ⟨envMtphsoffs, .mtphsoffs, 'f', ebppIsValidMtphsoffs⟩,
    ⟨envMtunlcktr, .mtunlcktr, 'l', ebppIsValidMtunlcktr⟩,
    ⟨envMtsyncin, .mtsyncin, 's', ebppIsValidMtsyncin⟩,
    ⟨envStunlcktr, .stunlcktr, 'k', ebppIsValidStunlcktr⟩]

/-- The commands that the loop of `ebpp_set_pllparam` puts together; `none` when a value is not
valid. -/
def pllCommands (flags : Bitmask) (p : EnvParams) : List PllParamMap → Option (List (Char × Word))
  | [] => some []
  | e :: es =>
    if flags.hits e.mask then
      if e.validate (p.val e.field) then
        (pllCommands flags p es).map ((e.cmd, p.val e.field) :: ·)
      else none
    else pllCommands flags p es

/-- `ebpp_set_pllparam`. -/
def ebppSetPllparam (flags : Bitmask) (p : EnvParams) : LibProg ParamResult :=
  match pllCommands flags p pllSetMap with
  | none => pure (cspiEInvalidParam, p)
  | some [] => pure (cspiOk, p)
  | some cmds => do
    let rc ← sys (.pllSetcmd cmds)
    pure (rc, p)

/-- `ebpp_get_pllparam`. -/
def ebppGetPllparam (flags : Bitmask) (p : EnvParams) : LibProg ParamResult :=
  if flags.hits envLplldstat then do
    let (rc, f) ← sys .pllGetstatus
    pure (rc, { p with pllStatus := f p.pllStatus })
  else pure (cspiOk, p)

/-! ## The calls -/

/-- `CACHE_MASK`: the parameters that the cache mirrors. -/
def cacheMask : Bitmask :=
  envKx ||| (envKy ||| (envXoffset ||| (envYoffset ||| (envQoffset ||| (envSr ||| (envSp |||
    (envLplldstat ||| (envDsc ||| envFrev))))))))

/-- The parameters that `custom_setenvparam` sets, one part after the other. -/
def setEnvparams (fd : Option File) (decimation : Word) (flags : Bitmask) (p : EnvParams) :
    LibProg ParamResult := do
  let r ← baseSetenvparam fd flags p
  let r ← r.andThen (handleParams (setParam fd) flags (customSetMap decimation))
  let r ← r.andThen (handleParams (setParam fd) flags coeffMap)
  let r ← r.andThen (ebppSetdscparam fd flags)
  r.andThen (ebppSetPllparam flags)

/-- `custom_getenvparam`. -/
def customGetenvparam (fd : Option File) (flags : Bitmask) (p : EnvParams) : LibProg ParamResult :=
  if flags = 0 then pure (cspiOk, p)
  else do
    let r ← baseGetenvparam fd flags p
    let r ← r.andThen (handleParams (getParam fd) flags customGetMap)
    let r ← r.andThen (ebppDscHandleParams flags dscGetMap)
    r.andThen (ebppGetPllparam flags)

/-- `custom_setenvparam`. The cache is out of date whatever the parts returned; `ebpp_setdscparam`
says so of the revolution frequency as well, which is one of the mirrored parameters. -/
def Lib.customSetenvparam (l : Lib) (p : EnvParams) (flags : Bitmask) :
    LibProg (ParamResult × Lib) := do
  let r ← setEnvparams l.env.fd l.decimation flags p
  pure (r, { l with dirty := l.dirty || flags.hits cacheMask })

/-- `cspi_setenvparam`. -/
def Lib.setenvparam (l : Lib) (h : Handle) (p : EnvParams) (flags : Bitmask) :
    LibProg (ParamResult × Lib) := do
  if ← l.isHenv h then do
    let l ← l.lock
    let (r, l) ← l.customSetenvparam p flags
    pure (r, l.unlock)
  else pure ((cspiEInvalidHandle, p), l)

/-- `cspi_getenvparam`. -/
def Lib.getenvparam (l : Lib) (h : Handle) (p : EnvParams) (flags : Bitmask) :
    LibProg (ParamResult × Lib) := do
  if ← l.isHenv h then do
    let l ← l.lock
    let r ← customGetenvparam l.env.fd flags p
    pure (r, l.unlock)
  else pure ((cspiEInvalidHandle, p), l)

end LiberaDaq.Cspi
