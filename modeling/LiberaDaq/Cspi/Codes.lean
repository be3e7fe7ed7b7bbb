import Mathlib.Data.BitVec

/-!
# Codes and data of the CSPI interface

The numbers, masks and records of `cspi.h`, `ebpp.h` and `libera.h` that the library exchanges with
its clients. The target is a 32-bit machine: `int`, `long` and `size_t` are 32-bit words, and a
`CSPI_BITMASK` has 64 bits. Return codes are plain integers: `0` is success, positive codes are
warnings and negative codes errors.
-/

namespace LiberaDaq.Cspi

/-- A 32-bit machine word (`int`, `unsigned`, `long` or `size_t`). -/
abbrev Word := BitVec 32

/-- A `CSPI_BITMASK`. -/
abbrev Bitmask := BitVec 64

/-- The test `flags & mask` of a condition. -/
def Bitmask.hits (flags mask : Bitmask) : Bool := (flags &&& mask) != 0

theorem Bitmask.hits_or (m m' mask : Bitmask) :
    (m ||| m').hits mask = (m.hits mask || m'.hits mask) := by
  rw [Bitmask.hits, BitVec.and_or_distrib_right, Bool.eq_iff_iff]
  simp only [Bitmask.hits, bne_iff_ne, ne_eq, Bool.or_eq_true]
  exact (not_congr BitVec.or_eq_zero_iff).trans not_and_or

theorem Bitmask.hits_comm (m mask : Bitmask) : m.hits mask = mask.hits m := by
  rw [Bitmask.hits, BitVec.and_comm, Bitmask.hits]

/-- The macro `BIT(n)`. -/
def bit (n : ℕ) : Bitmask := 1#64 <<< n

abbrev cspiOk : ℤ := 0
/-- The only warning: partially completed request. -/
abbrev cspiWIncomplete : ℤ := 1
abbrev cspiEInvalidHandle : ℤ := -2
abbrev cspiESequence : ℤ := -3
abbrev cspiEInvalidParam : ℤ := -4
abbrev cspiESystem : ℤ := -5
abbrev cspiEInvalidMode : ℤ := -6
abbrev cspiEIllegalCall : ℤ := -7
abbrev cspiEMalloc : ℤ := -8
abbrev cspiEVersion : ℤ := -9

/-! ## Modes and handles -/

/-- `CSPI_MODE`. -/
inductive Mode
  | unknown | dd | sa | pm | adc | average | adcCw | adcSp | adcSpRot
  deriving DecidableEq, Repr

/-- The type of a handle to allocate or free. -/
inductive HandleType
  | env | con
  deriving DecidableEq, Repr

/-- A `CSPIHANDLE`: null, the one environment, or the connection at an address of the heap. -/
inductive Handle
  | null | env | con (p : ℕ)
  deriving DecidableEq, Repr

/-- The origin of a seek: machine time, system time or the last trigger. -/
inductive Seek
  | mt | st | tr
  deriving DecidableEq, Repr

/-- A pointer to a buffer of the caller: null, or the object it points to. -/
abbrev Buffer := Option String

/-- A `CSPI_TIMESTAMP`: system time and machine time. -/
structure Timestamp where
  tvSec : ℤ := 0
  tvNsec : ℤ := 0
  mt : BitVec 64 := 0
  deriving DecidableEq, Repr

/-- A `CSPI_SETTIMESTAMP`: the time to set, with the phase of the machine time. -/
structure SetTimestamp where
  tvSec : ℤ := 0
  tvNsec : ℤ := 0
  mt : BitVec 64 := 0
  phase : Word := 0
  deriving DecidableEq, Repr

/-! ## Flags of the connection parameters -/

def conMode : Bitmask := bit 0
def conHandler : Bitmask := bit 1
def conUserdata : Bitmask := bit 2
def conEventmask : Bitmask := bit 3
/-- `CUSTOM_CON_BIT(0)`. -/
def conDec : Bitmask := bit 8
/-- `CUSTOM_CON_BIT(1)`. -/
def conSanonblock : Bitmask := bit 9

/-- `CSPI_CONPARAMS` with the members that `CSPI_CONPARAMS_EBPP` adds. A handler is a function
pointer, `none` for null. -/
structure ConParams where
  mode : Mode
  handler : Option ℕ
  userData : ℕ := 0
  eventMask : Bitmask
  dec : Word := 0
  nonblock : Word := 0
  deriving DecidableEq, Repr

/-- `CSPI_EVENT_TRIGGET`. -/
def eventTrigget : Bitmask := bit 6

def timeMt : Bitmask := bit 0
def timeSt : Bitmask := bit 1

/-! ## Environment parameters -/

/-- `CSPI_TRIGMODE_GET` and `CSPI_TRIGMODE_SET`. -/
def trigmodeGet : Word := 1
def trigmodeSet : Word := 2

/-- `CSPI_SWITCH_DIRECT` and the two values it stands for. -/
def switchDirect : Word := 0x100
def switchDirectBrilliance : Word := 0x0F
def switchDirectNotbrilliance : Word := 0x03

/-- `LIBERA_CFG_NOTCH_MAX` and `LIBERA_CFG_FIR_MAX`. -/
abbrev notchMax : ℕ := 5
abbrev firMax : ℕ := 192

instance neZero_notchMax : NeZero notchMax := ⟨by decide⟩

instance neZero_firMax : NeZero firMax := ⟨by decide⟩

/-- The members of the interlock group `ilk`. -/
inductive IlkMember
  | mode | xlow | xhigh | ylow | yhigh | overflowLimit | overflowDur | gainLimit
  deriving DecidableEq, Repr

/-- The members of the post-mortem group `pm`. -/
inductive PmMember
  | mode | minXLimit | maxXLimit | minYLimit | maxYLimit | overflowLimit | overflowDur
  deriving DecidableEq, Repr

/-- The members of the spike-removal group `sr`. -/
inductive SrMember
  | enable | cspiEnable | averagingStop | averageWindow | start | window
  deriving DecidableEq, Repr

/-- The members of the single-pass group `sp`. -/
inductive SpMember
  | threshold | nBefore | nAfter
  deriving DecidableEq, Repr

/-- The integer members of `CSPI_ENVPARAMS`. -/
inductive EnvField
  | temp | fan (i : Fin 2) | voltage (i : Fin 8)
  | pllSc | pllMc
  | trigMode
  | featureCustomer | featureItech
  | kx | ky | xoffset | yoffset | qoffset
  | switches | gain | agc | dsc
  | ilk (m : IlkMember) | ilkStatus
  | pmOffset | pmDec | trigDelay | externalSwitching | switchingDelay
  | ddcMaflength | ddcMafdelay
  | notch1 (i : Fin notchMax) | notch2 (i : Fin notchMax) | polyphaseFir (i : Fin firMax)
  | mtvcxoffs | mtncoshft | mtphsoffs | mtunlcktr | mtsyncin | stunlcktr
  | maxAdc | averageSum
  | pm (m : PmMember) | sr (m : SrMember) | sp (m : SpMember)
  deriving DecidableEq, Repr

/-- The fields of the PLL status that the calibration cache takes over. -/
structure PllStatus where
  frequency : Word
  harmonic : Word
  deriving DecidableEq, Repr

/-- `CSPI_ENVPARAMS`: its integer members, the PLL status and the revolution frequency (a
`double`, by its bits). -/
structure EnvParams where
  val : EnvField → Word
  pllStatus : PllStatus
  frev : BitVec 64

/-- Assignment to an integer member. -/
def EnvParams.set (p : EnvParams) (f : EnvField) (v : Word) : EnvParams :=
  { p with val := Function.update p.val f v }

@[simp] theorem EnvParams.set_val_self (p : EnvParams) (f : EnvField) (v : Word) :
    (p.set f v).val f = v := by simp [EnvParams.set]

theorem EnvParams.set_val_of_ne (p : EnvParams) {f g : EnvField} (h : g ≠ f) (v : Word) :
    (p.set f v).val g = p.val g := by simp [EnvParams.set, h]

/-- The macro `CUSTOM_ENV_BIT(n)`. -/
def customEnvBit (n : ℕ) : Bitmask := bit (4 + n)

def envHealth : Bitmask := bit 0
def envTrigmode : Bitmask := bit 1
def envPll : Bitmask := bit 2
def envFeature : Bitmask := bit 3
def envKx : Bitmask := customEnvBit 0
def envKy : Bitmask := customEnvBit 1
def envXoffset : Bitmask := customEnvBit 2
def envYoffset : Bitmask := customEnvBit 3
def envQoffset : Bitmask := customEnvBit 4
def envSwitch : Bitmask := customEnvBit 5
def envGain : Bitmask := customEnvBit 6
def envAgc : Bitmask := customEnvBit 7
def envDsc : Bitmask := customEnvBit 8
def envIlk : Bitmask := customEnvBit 9
def envIlkstatus : Bitmask := customEnvBit 10
def envPmoffset : Bitmask := customEnvBit 11
def envTrigdelay : Bitmask := customEnvBit 12
def envExtswitch : Bitmask := customEnvBit 13
def envSwdelay : Bitmask := customEnvBit 14
def envNotch1 : Bitmask := customEnvBit 15
def envNotch2 : Bitmask := customEnvBit 16
def envPolyphaseFir : Bitmask := customEnvBit 17
def envDdcMaflength : Bitmask := customEnvBit 18
def envDdcMafdelay : Bitmask := customEnvBit 19
def envMtvcxoffs : Bitmask := customEnvBit 20
def envMtncoshft : Bitmask := customEnvBit 21
def envMtphsoffs : Bitmask := customEnvBit 22
def envMtunlcktr : Bitmask := customEnvBit 23
def envMtsyncin : Bitmask := customEnvBit 24
def envStunlcktr : Bitmask := customEnvBit 25
def envLplldstat : Bitmask := customEnvBit 26
def envMaxAdc : Bitmask := customEnvBit 27
def envAverageSum : Bitmask := customEnvBit 28
def envPm : Bitmask := customEnvBit 29
def envSr : Bitmask := customEnvBit 30
def envSp : Bitmask := customEnvBit 31
def envFrev : Bitmask := customEnvBit 32
def envPmdec : Bitmask := customEnvBit 33

/-! ## Atoms -/

/-- What a buffer of the library holds; the size of the atom goes with it. -/
inductive AtomKind
  | dd | sa | adc | adcCw | adcSp | average
  deriving DecidableEq, Repr

/-- The size of an atom in bytes. -/
def AtomKind.size : AtomKind → ℕ
  | .dd => 32
  | .sa => 64
  | .adc => 8
  | .adcCw => 36
  | .adcSp => 28
  | .average => 4

/-- An atom with its members, in the order of the C structure. -/
structure Atom where
  kind : AtomKind
  members : List Word
  deriving DecidableEq, Repr

/-- A member of an atom, by its place in the structure. -/
def Atom.member (a : Atom) (i : ℕ) : Word := a.members.getD i 0

end LiberaDaq.Cspi
