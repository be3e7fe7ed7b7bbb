import LiberaDaq.Cspi.Params

/-!
# Connections

The calls of `cspi.c` on one connection that do not read data: its parameters, connecting and
disconnecting, the position and the time stamp. `cspi_settime` goes to the event device and uses no
handle.
-/

namespace LiberaDaq.Cspi

open LiberaDaq.Interaction

/-! ## Parameters -/

/-- The connection with the mode and the event mask that the flags select. -/
def Connection.tune (c : Connection) (cp : ConParams) (flags : Bitmask) : Connection :=
  { c with
    mode := if flags.hits conMode then cp.mode else c.mode
    eventMask := if flags.hits conEventmask then cp.eventMask else c.eventMask }

/-- The connection with the handler, in the process `pid`. -/
def Connection.tuneHandler (c : Connection) (cp : ConParams) (pid : Word) : Connection :=
  { c with pid := pid, handler := cp.handler }

/-- The connection with the user data, when the flags select it. -/
def Connection.tuneUser (c : Connection) (cp : ConParams) (flags : Bitmask) : Connection :=
  { c with userData := if flags.hits conUserdata then cp.userData else c.userData }

/-- `base_setconparam`. The handler comes after the event mask, which its registration uses. -/
def Lib.baseSetconparam (l : Lib) (p : ℕ) (c : Connection) (cp : ConParams) (flags : Bitmask) :
    LibProg (ℤ × Connection × Lib) :=
  if flags.hits conMode && cp.mode = .unknown then pure (cspiEInvalidParam, c, l)
  else
    let c := c.tune cp flags
    if flags.hits conHandler && cp.handler.isSome then do
      let pid ← sys .getpid
      let c := c.tuneHandler cp pid
      let l ← (l.setCon p c).lock
      let (rc, l) ← l.createEventThread c
      let c := c.tuneUser cp flags
      pure (rc, c, l.unlock.setCon p c)
    else
      let c := c.tuneUser cp flags
      pure (cspiOk, c, l.setCon p c)

/-- `ebpp_is_validdec`. -/
def ebppIsValiddec (w : Word) : Bool := w = 1 || w = 64

/-- The decimation of a DD connection, in `custom_setconparam`. -/
def setconDec (c : Connection) (cp : ConParams) : LibProg ℤ :=
  onFile c.fd cspiESequence fun f =>
    if c.mode ≠ .dd then pure cspiEIllegalCall
    else if ebppIsValiddec cp.dec then do
      let ok ← sys (.setDec f cp.dec)
      pure (if ok then cspiOk else cspiESystem)
    else pure cspiEInvalidParam

/-- The blocking mode of an SA connection, in `custom_setconparam`. -/
def setconNonblock (c : Connection) (cp : ConParams) : LibProg ℤ :=
  onFile c.fd cspiESequence fun f =>
    if c.mode ≠ .sa then pure cspiEIllegalCall
    else do
      let flags ← sys (.getfl f)
      if flags = none then pure cspiESystem
      else do
        let ok ← sys (.setNonblock f (cp.nonblock ≠ 0))
        pure (if ok then cspiOk else cspiESystem)

/-- The parameters that `custom_setconparam` adds. -/
def setconCustom (c : Connection) (cp : ConParams) (flags : Bitmask) : LibProg ℤ := do
  let rc ← if flags.hits conDec then setconDec c cp else pure cspiOk
  if rc ≠ cspiOk then pure rc
  else if flags.hits conSanonblock then setconNonblock c cp
  else pure cspiOk

/-- `cspi_setconparam`, with `custom_setconparam`. -/
def Lib.setconparam (l : Lib) (h : Handle) (cp : ConParams) (flags : Bitmask) :
    LibProg (ℤ × Lib) := do
  match ← l.isHcon h with
  | none => pure (cspiEInvalidHandle, l)
  | some (p, c) => do
    let (rc, c, l) ← l.baseSetconparam p c cp flags
    if rc ≠ cspiOk then pure (rc, l)
    else do
      let rc ← setconCustom c cp flags
      pure (rc, l)

/-- `custom_setconparam`, which `Lib.setconparam` has written out. -/
def Lib.customSetconparam (l : Lib) (a : ℕ) (c : Connection) (cp : ConParams) (flags : Bitmask) :
    LibProg (ℤ × Lib) := do
  let (rc, c, l) ← l.baseSetconparam a c cp flags
  if rc ≠ cspiOk then pure (rc, l)
  else do
    let rc ← setconCustom c cp flags
    pure (rc, l)

/-- `cspi_getconparam`, which calls `custom_setconparam`. Nothing is written to the structure. -/
def Lib.getconparam (l : Lib) (h : Handle) (cp : ConParams) (flags : Bitmask) :
    LibProg ((ℤ × ConParams) × Lib) := do
  match ← l.isHcon h with
  | none => pure ((cspiEInvalidHandle, cp), l)
  | some (a, c) =>
    if c.fd = none then pure ((cspiESequence, cp), l)
    else do
      let (rc, l) ← l.customSetconparam a c cp flags
      pure ((rc, cp), l)

/-! ## Connecting -/

/-- `get_devicename`, for a mode that is known. -/
def getDevicename : Mode → Path
  | .sa => .sa
  | .pm => .pm
  | .adc | .adcCw | .adcSp | .adcSpRot => .adc
  | .unknown | .dd | .average => .dd

/-- `cspi_connect`. -/
def Lib.connect (l : Lib) (h : Handle) : LibProg (ℤ × Lib) := do
  match ← l.isHcon h with
  | none => pure (cspiEInvalidHandle, l)
  | some (p, c) =>
    if c.fd.isSome then pure (cspiESequence, l)
    else if c.mode = .unknown then pure (cspiEInvalidMode, l)
    else do
      let fd ← sys (.open (getDevicename c.mode) .rdonly)
      match fd with
      | none => pure (cspiESystem, l)
      | some n => pure (cspiOk, l.setCon p { c with fd := some ⟨n, .rdonly⟩, timestamp := {} })

/-- `cspi_disconnect`. -/
def Lib.disconnect (l : Lib) (h : Handle) : LibProg (ℤ × Lib) := do
  match ← l.isHcon h with
  | none => pure (cspiEInvalidHandle, l)
  | some (p, c) => do
    let closed ← onFile c.fd true fun f => sys (.close f)
    if closed then pure (cspiOk, l.setCon p { c with fd := none, mode := .unknown })
    else pure (cspiESystem, l)

/-! ## Position and time -/

/-- `cspi_seek`. -/
def Lib.seek (l : Lib) (h : Handle) (offset : BitVec 64) (origin : Seek) : LibProg (ℤ × Lib) := do
  match ← l.isHcon h with
  | none => pure (cspiEInvalidHandle, l)
  | some (_, c) => do
    let rc ← onFile c.fd cspiESequence fun f =>
      if c.mode ≠ .dd ∧ c.mode ≠ .average then pure cspiEIllegalCall
      else do
        let ok ← sys (.lseek f offset origin)
        pure (if ok then cspiOk else cspiESystem)
    pure (rc, l)

/-- `cspi_gettimestamp`. -/
def Lib.gettimestamp (l : Lib) (h : Handle) : LibProg ((ℤ × Timestamp) × Lib) := do
  match ← l.isHcon h with
  | none => pure ((cspiEInvalidHandle, {}), l)
  | some (_, c) =>
    if c.fd = none ∨ c.timestamp.tvSec ≤ 0 then pure ((cspiESequence, {}), l)
    else if c.mode ≠ .dd ∧ c.mode ≠ .pm ∧ c.mode ≠ .average then pure ((cspiEIllegalCall, {}), l)
    else pure ((cspiOk, c.timestamp), l)

/-- `cspi_settime`. -/
def settime (ts : SetTimestamp) (flags : Bitmask) : LibProg ℤ :=
  if flags = 0 then pure cspiOk
  else do
    let fd ← sys (.open .event .rdonly)
    match fd with
    | none => pure cspiESystem
    | some n => do
      let f : File := ⟨n, .rdonly⟩
      let ok ← if flags.hits timeMt then sys (.setMt f ts) else pure true
      let ok ← if ok && flags.hits timeSt then sys (.setSt f ts) else pure ok
      let _ ← sys (.close f)
      pure (if ok then cspiOk else cspiESystem)

end LiberaDaq.Cspi
