import LiberaDaq.Driver.Time

/-!
# The methods of the driver

`initIO`, `deinitIO`, `iop` and `read` of `LiberaBrillianceCSPIDriver`. Each takes the driver and
gives back the driver it leaves; `read` changes nothing of it. The cases of `iop` that end in the
common tail (the connection is configured and opened as long as the operation is `acquire`) are
kept apart from those that return at once.
-/

namespace LiberaDaq

open Cspi Interaction

/-- `cfg.operation = op`. -/
def Driver.setOperation (d : Driver) (op : Operation) : Driver :=
  { d with cfg := { d.cfg with operation := op } }

section

variable (d : Driver) (op : Operation)

@[simp] theorem Driver.setOperation_operation : (d.setOperation op).cfg.operation = op := rfl
@[simp] theorem Driver.setOperation_envHandle : (d.setOperation op).envHandle = d.envHandle := rfl
@[simp] theorem Driver.setOperation_conHandle : (d.setOperation op).conHandle = d.conHandle := rfl
@[simp] theorem Driver.setOperation_mask : (d.setOperation op).cfg.mask = d.cfg.mask := rfl
@[simp] theorem Driver.setOperation_time : (d.setOperation op).cfg.time = d.cfg.time := rfl
@[simp] theorem Driver.setOperation_superuser : (d.setOperation op).superuser = d.superuser := rfl

end

/-! ## Initialisation -/

/-- `initIO`. -/
def Driver.initIO (d : Driver) : DrvProg (ℤ × Driver) :=
  if d.cfg.operation ≠ .deinit then pure (0, d)
  else do
    let cfg := { d.cfg with operation := .init, atomCount := 1, datasize := 0 }
    let d := { d with cfg := cfg, ep := d.ep.set .trigMode trigmodeGet }
    let _ ← cspi (.setlibparam d.superuser)
    let (rc, h) ← cspi (.allochandle .env .null)
    let d := { d with envHandle := h }
    if rc ≠ cspiOk then pure (rc, d)
    else do
      let (rc, ep) ← cspi (.setenvparam d.envHandle d.ep envTrigmode)
      let d := { d with ep := ep }
      if rc ≠ cspiOk then pure (rc, d)
      else do
        let (rc, h) ← cspi (.allochandle .con d.envHandle)
        let d := { d with conHandle := h }
        if rc ≠ cspiOk then pure (rc, d) else pure (0, d)

/-- The part of `deinitIO` for one handle: the code of `cspi_freehandle` and the handle that is
left. -/
def freeHandle (type : HandleType) (h : Handle) : DrvProg (ℤ × Handle) :=
  if h ≠ .null then do
    let rc : ℤ ← cspi (.freehandle type h)
    if rc ≠ cspiOk then pure (rc, h) else pure (cspiOk, .null)
  else pure (cspiOk, h)

/-- `deinitIO`. -/
def Driver.deinitIO (d : Driver) : DrvProg (ℤ × Driver) := do
  let d := d.setOperation .deinit
  let (rc, h) ← freeHandle .env d.envHandle
  let d := { d with envHandle := h }
  if rc ≠ cspiOk then pure (rc, d)
  else do
    let (rc, h) ← freeHandle .con d.conHandle
    let d := { d with conHandle := h }
    if rc ≠ cspiOk then pure (rc, d) else pure (0, d)

/-! ## iop: SET_SAMPLES, SET_OFFSET and ACQUIRE -/

/-- `cfg.atom_count = n`. -/
def Driver.setSamples (d : Driver) (n : Word) : Driver :=
  { d with cfg := { d.cfg with atomCount := n } }

/-- `cfg.dd.offset = n`, from an `int` to 64 bits. -/
def Driver.setOffset (d : Driver) (n : Word) : Driver :=
  { d with cfg := { d.cfg with ddOffset := n.signExtend 64 } }

/-- The flags that ACQUIRE takes over: trigger and decimation. -/
def acquireFlags (w : Word) (cfg : LiberaConfig) : LiberaConfig :=
  { cfg with
    mask := if hits w liberaIopModeTriggered then cfg.mask ||| wantTrigger
      else cfg.mask &&& ~~~wantTrigger
    ddDecimation := if hits w liberaIopModeDecimated then 1 else 0 }

/-- One of the `if`s of ACQUIRE over the mode bits. -/
def acquireAs (mode : Mode) (size : ℕ) (cfg : LiberaConfig) : LiberaConfig :=
  { cfg with mode := mode, operation := .acquire, datasize := BitVec.ofNat 32 size }

/-- `cfg.adc.mode` with a bit set or cleared. -/
def adcBit (on : Bool) (b : Word) (cfg : LiberaConfig) : LiberaConfig :=
  { cfg with adcMode := if on then cfg.adcMode ||| b else cfg.adcMode &&& ~~~b }

def acquireDd (w : Word) (cfg : LiberaConfig) : LiberaConfig :=
  if hits w liberaIopModeDd then acquireAs .dd AtomKind.dd.size cfg else cfg

def acquireSa (w : Word) (cfg : LiberaConfig) : LiberaConfig :=
  if hits w liberaIopModeSa then acquireAs .sa AtomKind.sa.size cfg else cfg

def acquirePm (w : Word) (cfg : LiberaConfig) : LiberaConfig :=
  if hits w liberaIopModePm then acquireAs .pm AtomKind.dd.size cfg else cfg

/-- The `if` for the ADC, with those for its continuous and single-pass variants inside. -/
def acquireAdc (w : Word) (cfg : LiberaConfig) : LiberaConfig :=
  if hits w liberaIopModeAdc then
    let cfg := acquireAs .adc AtomKind.adc.size cfg
    let cfg := adcBit (hits w liberaIopModeContinuous) adcCw <|
      if hits w liberaIopModeContinuous then acquireAs .adcCw AtomKind.adcCw.size cfg else cfg
    adcBit (hits w liberaIopModeSinglepass) adcSp <|
      if hits w liberaIopModeSinglepass then acquireAs .adcSp AtomKind.adcSp.size cfg else cfg
  else cfg

/-- The `if` for the average. Its condition reads the opcode of the call, not the mode word. -/
def acquireAvg (cfg : LiberaConfig) : LiberaConfig :=
  if hits liberaIopCmdAcquire liberaIopModeAvg then
    { acquireAs .average AtomKind.average.size cfg with atomCount := 1 }
  else cfg

/-- What ACQUIRE makes of the configuration. -/
def acquireConfig (w : Word) (cfg : LiberaConfig) : LiberaConfig :=
  acquireAvg (acquireAdc w (acquirePm w (acquireSa w (acquireDd w (acquireFlags w cfg)))))

/-- The case of ACQUIRE. Without a trigger it also asks for the trigger mode `0`, in a structure
that is otherwise uninitialised, and ignores the answer. -/
def Driver.acquire (d : Driver) (ep : EnvParams) (w : Word) : DrvProg Driver := do
  let d' := { d with driverMode := w, cfg := acquireConfig w d.cfg }
  if hits w liberaIopModeTriggered then pure d'
  else do
    let _ ← cspi (.setenvparam d.envHandle (ep.set .trigMode 0) envTrigmode)
    pure d'

/-- `event_callback`. -/
def eventCallback : ℕ := 0

/-- The events that the tail asks for: those of a trigger when one is wanted. -/
def Driver.eventMask (d : Driver) : Bitmask :=
  if d.cfg.mask.hits wantTrigger then eventTrigget else 0

/-- The driver with the connection parameters that the tail assigns. -/
def Driver.setParams (d : Driver) : Driver :=
  { d with p :=
    { d.p with handler := some eventCallback, mode := d.cfg.mode, eventMask := d.eventMask } }

/-- The connection parameters that the tail asks the library to take over. -/
def Driver.paramMask (d : Driver) : Bitmask :=
  if d.eventMask ≠ 0 then conMode ||| (conHandler ||| conEventmask) else conMode

/-- The common tail of `iop`. -/
def Driver.iopTail (d : Driver) : DrvProg (ℤ × Driver) :=
  if d.cfg.operation = .acquire then do
    let d := d.setParams
    let rc : ℤ ← cspi (.setconparam d.conHandle d.p d.paramMask)
    if rc ≠ cspiOk then pure (rc, d)
    else do
      let rc : ℤ ← cspi (.connect d.conHandle)
      if rc ≠ cspiOk then pure (rc, d) else pure (0, d)
  else pure (0, d)

/-! ## iop: the environment -/

/-- The assignments of SETENV, one for each bit of the selector. -/
def setEnvFields : List (Bitmask × EnvField) :=
  [(envKx, .kx), (envKy, .ky), (envXoffset, .xoffset), (envYoffset, .yoffset),
    (envQoffset, .qoffset), (envSwitch, .switches), (envGain, .gain), (envAgc, .agc),
    (envDsc, .dsc), (envIlk, .ilk .mode), (envIlkstatus, .ilkStatus), (envPmoffset, .pmOffset),
    (envPmdec, .pmDec), (envTrigdelay, .trigDelay), (envExtswitch, .externalSwitching),
    (envSwdelay, .switchingDelay), (envTrigmode, .trigMode), (envDdcMaflength, .ddcMaflength),
    (envDdcMafdelay, .ddcMafdelay), (envNotch1, .notch1 0), (envNotch2, .notch2 0),
    (envPolyphaseFir, .polyphaseFir 0), (envMtvcxoffs, .mtvcxoffs), (envMtncoshft, .mtncoshft),
    (envMtphsoffs, .mtphsoffs), (envMtunlcktr, .mtunlcktr), (envMtsyncin, .mtsyncin),
    (envStunlcktr, .stunlcktr), (envPm, .pm .mode), (envSr, .sr .enable), (envSp, .sp .threshold)]

/-- The macro `SET_ENV`. -/
def setEnv (selector : Bitmask) (value : Word) (env : EnvParams) (e : Bitmask × EnvField) :
    EnvParams :=
  if selector.hits e.1 then env.set e.2 value else env

/-- The structure that SETENV hands to the library, prepared in an uninitialised one. -/
def setEnvParams (selector : Bitmask) (value : Word) (env : EnvParams) : EnvParams :=
  setEnvFields.foldl (setEnv selector value) env

/-- The part of SETENV before the tail: the code of `cspi_setenvparam`. -/
def Driver.setenv (d : Driver) (selector : Bitmask) (value : Word) : DrvProg (ℤ × Driver) := do
  let d := d.setOperation .setenv
  let env ← host .uninitEnv
  let r ← cspi (.setenvparam d.envHandle (setEnvParams selector value env) selector)
  pure (r.1, d)

/-- The part of GETENV before the tail: the code of `cspi_getenvparam` and the parameters that are
printed. -/
def Driver.getenv (d : Driver) : DrvProg (ℤ × EnvParams × Driver) := do
  let d := d.setOperation .listenv
  let env ← host .uninitEnv
  let r ← cspi (.getenvparam d.envHandle env (~~~0))
  pure (r.1, r.2, d)

/-! ## iop: the time -/

/-- The flags and the structure that SETTIME hands to `cspi_settime`, prepared in an uninitialised
one. -/
def settimeArgs (cfg : LiberaConfig) (ts : SetTimestamp) : SetTimestamp × Bitmask :=
  let (ts, mask) :=
    if cfg.mask.hits wantSetmt then ({ ts with mt := cfg.time.mt, phase := cfg.time.phase }, timeMt)
    else (ts, 0)
  if cfg.mask.hits wantSetst then ({ ts with tvSec := cfg.time.st, tvNsec := 0 }, mask ||| timeSt)
  else (ts, mask)

/-- SETTIME after the string was parsed. -/
def Driver.settimeTail (d : Driver) (ep : EnvParams) : DrvProg ℤ := do
  let ts ← host .uninitTs
  let (ts, mask) := settimeArgs d.cfg ts
  let (rc, _) ← cspi (.setenvparam d.envHandle (ep.set .trigMode trigmodeSet) envTrigmode)
  if rc ≠ cspiOk then pure rc
  else do
    let rc : ℤ ← cspi (.settime d.envHandle ts mask)
    if rc ≠ cspiOk then pure rc else pure 0

/-- The case of SETTIME. -/
def Driver.settime (d : Driver) (ep : EnvParams) (time : List Char) :
    DrvProg (Outcome × Driver) := do
  let d := d.setOperation .settime
  let (o, cfg) ← assignTime time d.cfg
  let d := { d with cfg := cfg }
  if o ≠ .ret 0 then pure (o, d)
  else do
    let rc ← d.settimeTail ep
    pure (.ret rc, d)

/-! ## iop -/

/-- What `iop` writes to its data argument. -/
inductive IopOut
  | none
  | ts (ts : Timestamp)
  | env (env : EnvParams)

/-- The common tail, after a case that wrote `out`. -/
def Driver.finish (d : Driver) (out : IopOut) : DrvProg (Outcome × IopOut × Driver) := do
  let (rc, d) ← d.iopTail
  pure (.ret rc, out, d)

/-- `iop`. It declares the structure `ep`, which it leaves uninitialised, before the switch. -/
def Driver.iop (d : Driver) (r : IopRequest) : DrvProg (Outcome × IopOut × Driver) := do
  let ep ← host .uninitEnv
  match r with
  | .getTs => do
    let (rc, ts) ← cspi (.gettimestamp d.conHandle)
    if rc = cspiOk then pure (.ret 0, .ts ts, d) else pure (.ret rc, .none, d)
  | .stop => do
    let _ ← cspi (.disconnect d.conHandle)
    (d.setOperation .unknown).finish .none
  | .acquire w => do
    let d ← d.acquire ep w
    d.finish .none
  | .setSamples n => (d.setSamples n).finish .none
  | .setOffset n => (d.setOffset n).finish .none
  | .setenv selector value => do
    let (rc, d) ← d.setenv selector value
    if rc ≠ cspiOk then pure (.ret rc, .none, d) else d.finish .none
  | .getenv => do
    let (rc, env, d) ← d.getenv
    if rc ≠ cspiOk then pure (.ret rc, .none, d) else d.finish (.env env)
  | .settime time => do
    let (o, d) ← d.settime ep time
    pure (o, .none, d)
  | .other => d.finish .none

/-! ## read -/

/-- `ETIMEDOUT`. -/
def etimedout : ℤ := 110

/-- The wait that ends the loop of `wait_trigger`: the first that failed or found the event of a
trigger. -/
def endsWait (w : ℤ × Bitmask) : Bool := w.1 ≠ 0 || w.2 = eventTrigget

/-- `wait_trigger`. -/
def waitTrigger : DrvProg ℤ := do
  let ws ← host .timedwaits
  match ws.find? endsWait with
  | none => do
    let e ← host .hang
    e.elim
  | some w => if w.1 = etimedout then pure w.1 else pure 0

/-- `CHANNEL_DD`. -/
def channelDd : ℤ := 0

/-- What `read` returns and the atoms it leaves in the buffer. -/
structure ReadOutcome where
  ret : ℤ
  data : List Atom
  deriving DecidableEq, Repr

/-- The number of atoms that `read` asks for: `std::min(bcount/cfg.datasize, cfg.atom_count)`. -/
def Driver.readCount (d : Driver) (bcount : Word) : Word :=
  if bcount / d.cfg.datasize ≤ d.cfg.atomCount then bcount / d.cfg.datasize else d.cfg.atomCount

/-- The origin of the seek. -/
def Driver.readOrigin (d : Driver) : Seek := if d.cfg.mask.hits wantTrigger then .tr else .mt

/-- `read` once the trigger has come. -/
def Driver.readData (d : Driver) (buffer : Buffer) (addr : ℤ) (bcount : Word) :
    DrvProg ReadOutcome :=
  if d.cfg.mode = .sa then do
    let (rc, data) ← cspi (.get d.conHandle buffer)
    if rc ≠ cspiOk then pure ⟨-rc, data⟩ else pure ⟨1, data⟩
  else if addr = channelDd then do
    let rc : ℤ ← cspi (.seek d.conHandle d.cfg.ddOffset d.readOrigin)
    if rc ≠ cspiOk then pure ⟨-rc, []⟩
    else do
      let r : ReadResult ← cspi (.read d.conHandle buffer (d.readCount bcount))
      if r.rc ≠ cspiOk then pure ⟨-r.rc, r.data⟩
      else pure ⟨r.nread.toInt, r.data⟩
  else pure ⟨0, []⟩

/-- The condition under which `read` does anything. -/
abbrev Driver.acquiring (d : Driver) : Prop := d.cfg.operation = .acquire ∧ 0 < d.cfg.datasize

/-- `read`. -/
def Driver.read (d : Driver) (buffer : Buffer) (addr : ℤ) (bcount : Word) : DrvProg ReadOutcome :=
  if d.acquiring then do
    if d.cfg.mask.hits wantTrigger then do
      let rc ← waitTrigger
      if rc ≠ 0 then pure ⟨-rc, []⟩ else d.readData buffer addr bcount
    else d.readData buffer addr bcount
  else pure ⟨0, []⟩

end LiberaDaq
