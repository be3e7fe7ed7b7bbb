import LiberaDaq.Cspi.Interface

/-!
# The state of the driver

The members of `LiberaBrillianceCSPIDriver`, with its `liberaconfig`, the opcodes and mode bits of
`LiberaData.h`, and the calls the driver makes: those of the CSPI library and the few others it
needs (the timed waits for a trigger, the conversion of a calendar date, and the contents of local
structures that it leaves uninitialised).
-/

namespace LiberaDaq

open Cspi Interaction

/-- The test `w & mask` of a condition, on 32-bit words. -/
def hits (w mask : Word) : Bool := (w &&& mask) != 0

/-! ## Mode bits and opcodes -/

def liberaIopModeDd : Word := 0x1
def liberaIopModeSa : Word := 0x2
def liberaIopModeAdc : Word := 0x4
def liberaIopModePm : Word := 0x8
def liberaIopModeAvg : Word := 0x10
def liberaIopModeTriggered : Word := 0x100
def liberaIopModeDecimated : Word := 0x200
def liberaIopModeContinuous : Word := 0x400
def liberaIopModeSinglepass : Word := 0x800

/-- The opcode `LIBERA_IOP_CMD_ACQUIRE`. -/
def liberaIopCmdAcquire : Word := 0x1

/-- A request to `iop`: the opcode with what its data argument points to. An opcode outside the
list has none of the cases of the switch. -/
inductive IopRequest
  | acquire (mode : Word)
  | setenv (selector : Bitmask) (value : Word)
  | getenv
  | settime (time : List Char)
  | setOffset (offset : Word)
  | setSamples (samples : Word)
  | stop
  | getTs
  | other
  deriving DecidableEq, Repr

/-! ## liberaconfig -/

/-- `liberaconfig::operation`. -/
inductive Operation
  | unknown | init | deinit | acquire | setenv | listenv | settime
  deriving DecidableEq, Repr

/-- `liberaconfig::settime_specific`: machine time, phase of the machine time and system time. -/
structure SettimeSpecific where
  mt : BitVec 64
  phase : Word
  st : ℤ
  deriving DecidableEq, Repr

/-- `liberaconfig`, without the members that no function reads or assigns. -/
structure LiberaConfig where
  operation : Operation
  mode : Mode
  ddDecimation : Word
  ddOffset : BitVec 64
  adcMode : Word
  atomCount : Word
  datasize : Word
  time : SettimeSpecific
  mask : Bitmask
  deriving DecidableEq, Repr

/-- `adc_specific::cw` and `adc_specific::sp`. -/
def adcCw : Word := 0x01
def adcSp : Word := 0x02

def wantTrigger : Bitmask := 0x04
def wantSetmt : Bitmask := 0x10
def wantSetst : Bitmask := 0x20

/-- The members of `LiberaBrillianceCSPIDriver`. -/
structure Driver where
  driverMode : Word
  envHandle : Handle
  conHandle : Handle
  /-- `lib.superuser`. -/
  superuser : Word
  ep : EnvParams
  p : ConParams
  cfg : LiberaConfig

/-- The members that a constructor run leaves as it found them in memory. -/
structure Uninitialised where
  driverMode : Word
  superuser : Word
  ep : EnvParams
  p : ConParams
  phase : Word
  datasize : Word

/-- `LiberaBrillianceCSPIDriver()`, on an instance whose handles are null. -/
def Driver.construct (u : Uninitialised) : Driver where
  driverMode := u.driverMode
  envHandle := .null
  conHandle := .null
  superuser := u.superuser
  ep := u.ep
  p := u.p
  cfg :=
    { operation := .deinit
      mode := .unknown
      ddDecimation := 0
      ddOffset := 0
      adcMode := 0
      atomCount := 0
      datasize := u.datasize
      time := { mt := 0, phase := u.phase, st := 0 }
      mask := 0 }

/-! ## The calls of the driver -/

/-- A calendar date, as `strptime` fills a `struct tm`. -/
structure Tm where
  year : ℤ
  mon : ℤ
  mday : ℤ
  hour : ℤ
  min : ℤ
  sec : ℤ
  deriving DecidableEq, Repr

/-- A call of the driver outside the library. -/
inductive HostCall
  /-- The waits on the event condition that `wait_trigger` makes one after the other: what each
  one returned and the `_event_id` that it found. -/
  | timedwaits
  /-- A wait that never ends. -/
  | hang
  /-- What an uninitialised `CSPI_ENVPARAMS` holds. -/
  | uninitEnv
  /-- What an uninitialised `CSPI_SETTIMESTAMP` holds. -/
  | uninitTs
  /-- `strptime` on a string, with the format `%Y:%m:%d:%H:%M.%S`. -/
  | strptime (s : List Char)
  | mktime (t : Tm)

/-- What such a call gives back. -/
abbrev HostAns : HostCall → Type
  | .timedwaits => List (ℤ × Bitmask)
  | .hang => Empty
  | .uninitEnv => EnvParams
  | .uninitTs => SetTimestamp
  | .strptime _ => Option Tm
  | .mktime _ => ℤ

/-- The calls of the driver: of the library and of its host. -/
abbrev DrvCall := CspiCall ⊕ HostCall

abbrev DrvAns : DrvCall → Type := Answers CspiAns HostAns

/-- The programs of the driver. -/
abbrev DrvProg := Prog DrvCall DrvAns

/-- A call of the library. -/
abbrev cspi (c : CspiCall) : DrvProg (CspiAns c) :=
  Prog.perform (Sum.inl c : DrvCall)

/-- A call of the host. -/
abbrev host (c : HostCall) : DrvProg (HostAns c) :=
  Prog.perform (Sum.inr c : DrvCall)

end LiberaDaq
