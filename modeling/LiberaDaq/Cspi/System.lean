import LiberaDaq.Cspi.Interface

/-!
# The system below the library

The system calls that the library makes, with what each one gives back. A file that is open goes
with the access it was opened with, so that a call can say what the system knows of it. The
exchanges with the DSC server and with the PLL daemon, the files of the health sensors and the table
of gains are one call each.

A call that the process does not survive, or that never returns, has no answer.
-/

namespace LiberaDaq.Cspi

open LiberaDaq.Interaction

/-! ## Files and parameters -/

/-- The files that the library opens: the configuration device, the data sources, the event device,
the request FIFO of the event daemon and the event FIFO of a process. -/
inductive Path
  | cfg | dd | sa | pm | adc | event | eventd | pidEvent (pid : Word)
  deriving DecidableEq, Repr

/-- `O_RDONLY`, `O_WRONLY` and `O_RDWR`. -/
inductive Access
  | rdonly | wronly | rdwr
  deriving DecidableEq, Repr

/-- An open file: its descriptor and the access it was opened with. -/
structure File where
  descriptor : ℕ
  access : Access
  deriving DecidableEq, Repr

/-- `LIBERA_MAGIC`. -/
def liberaMagic : Word := 0xeb00

/-- The parameters of the configuration device, `LIBERA_CFG_*`. -/
inductive CfgIndex
  | trigmode | mcpll | scpll | featureCustomer | featureItech
  | xoffset | yoffset | qoffset | kx | ky
  | ilk (m : IlkMember) | pm (m : PmMember) | sr (m : SrMember) | sp (m : SpMember)
  | ilkstatus | pmoffset | pmdec | extswitch | swdelay | dfa | decDdc
  | ddcMaflength | ddcMafdelay | trigdelay | bcdXoffset | bcdYoffset | maxAdc | averageSum
  | notch1 (i : Fin notchMax) | notch2 (i : Fin notchMax) | polyphaseFir (i : Fin firMax)
  deriving DecidableEq, Repr

/-- The number of a parameter. -/
def CfgIndex.code : CfgIndex → ℕ
  | .trigmode => 0
  | .mcpll => 1
  | .scpll => 2
  | .featureCustomer => 3
  | .featureItech => 4
  | .xoffset => 128
  | .yoffset => 129
  | .qoffset => 130
  | .kx => 131
  | .ky => 132
  | .ilk .xlow => 133
  | .ilk .xhigh => 134
  | .ilk .ylow => 135
  | .ilk .yhigh => 136
  | .ilk .mode => 137
  | .ilk .overflowLimit => 138
  | .ilk .overflowDur => 139
  | .ilk .gainLimit => 140
  | .pm .mode => 141
  | .pm .minXLimit => 142
  | .pm .maxXLimit => 143
  | .pm .minYLimit => 144
  | .pm .maxYLimit => 145
  | .pm .overflowLimit => 146
  | .pm .overflowDur => 147
  | .sr .enable => 148
  | .sr .cspiEnable => 149
  | .sr .averagingStop => 150
  | .sr .averageWindow => 151
  | .sr .start => 152
  | .sr .window => 153
  | .sp .threshold => 154
  | .sp .nBefore => 155
  | .sp .nAfter => 156
  | .ilkstatus => 162
  | .pmoffset => 163
  | .pmdec => 164
  | .extswitch => 165
  | .swdelay => 166
  | .dfa => 167
  | .decDdc => 168
  | .ddcMaflength => 169
  | .ddcMafdelay => 170
  | .trigdelay => 171
  | .bcdXoffset => 172
  | .bcdYoffset => 173
  | .maxAdc => 174
  | .averageSum => 175
  | .notch1 i => 256 + i
  | .notch2 i => 256 + notchMax + i
  | .polyphaseFir i => 256 + 2 * notchMax + i

/-- `LIBERA_CFG_LEVEL` and `LIBERA_CFG_DSC`, which the DSC server announces. -/
def cfgLevel : ℕ := 159

def cfgDsc : ℕ := 161

/-- `LIBERA_IS_BRILLIANCE`, on the feature register. -/
def liberaIsBrilliance (cfg : Word) : Bool :=
  (cfg &&& 0xF0000000) >>> 28 = 0x00 && (cfg &&& 0x0F000000) >>> 24 = 0x01

/-- The messages to the DSC server. -/
inductive DscMessage
  | setAgc | getAgc | setDsc | getDsc | setGain | getGain | setSwitch | getSwitch | getFrev
  | applySettings
  deriving DecidableEq, Repr

/-- A `Request` to the event daemon: the process, the connection and the mask it listens to. -/
structure EventRequest where
  pid : Word
  uid : Word
  mask : Word
  deriving DecidableEq, Repr

/-- The members of `CSPI_ENVPARAMS` that the health sensors fill; `none` where a sensor was not
reached. -/
structure Health where
  temp : Option Word
  fan : Fin 2 → Option Word
  voltage : Fin 8 → Option Word

/-- Where a `read` puts its bytes: in a buffer of the client, or in memory of the library. -/
inductive Dest
  | client (b : Buffer)
  | own
  deriving DecidableEq, Repr

/-- What a `read` of at most `n` bytes gave: their number, and the atoms that they make up. -/
structure Received (n : ℕ) where
  bytes : ℕ
  le : bytes ≤ n
  atom : ℕ → Atom

/-! ## The calls -/

/-- The calls of the library. -/
inductive SysCall
  | open (path : Path) (access : Access)
  | close (f : File)
  | getMagic (f : File)
  | getCfg (f : File) (idx : CfgIndex)
  | setCfg (f : File) (idx : CfgIndex) (val : Word)
  | getDdTstamp (f : File)
  | getPmTstamp (f : File)
  | setDec (f : File) (dec : Word)
  | setMt (f : File) (ts : SetTimestamp)
  | setSt (f : File) (ts : SetTimestamp)
  /-- `fcntl` with `F_GETFL`. -/
  | getfl (f : File)
  /-- `fcntl` with `F_SETFL`, for `O_NONBLOCK` alone. -/
  | setNonblock (f : File) (on : Bool)
  | lseek (f : File) (offset : BitVec 64) (origin : Seek)
  /-- A `read` of `n` bytes, which are atoms of a kind. -/
  | read (f : File) (dest : Dest) (kind : AtomKind) (n : Word)
  /-- The atoms that an operator leaves at the start of a buffer of the client. -/
  | store (b : Buffer) (atoms : List Atom)
  /-- `malloc` of a connection; the addresses in use go with it. -/
  | malloc (used : ℕ → Bool)
  /-- An allocation of any other memory. -/
  | alloc
  | getpid
  | mkfifo (path : Path)
  | pthreadCreate
  | pthreadJoin
  | writeRequest (f : File) (r : EventRequest)
  | sigaction
  /-- What an uninitialised `CSPI_ENVPARAMS` of the library holds. -/
  | uninitEnv
  /-- `ebpp_dsc_message`. -/
  | dscMessage (msg : DscMessage) (val : BitVec 64)
  /-- `ebpp_pll_setcmd`, with the commands of the string and their values. -/
  | pllSetcmd (cmds : List (Char × Word))
  /-- The exchange of `ebpp_get_pllparam` with the PLL daemon. -/
  | pllGetstatus
  /-- The files that `cspi_gethealthparam` reads. -/
  | health
  /-- `ebpp_toattn`. -/
  | toattn (gain : Word)
  /-- A lock that is never released, or a loop that never ends. -/
  | hang
  /-- An access through a pointer that is null or dangling. -/
  | fault

/-- What a call gives back; `none` and `false` stand for `-1`. -/
abbrev SysAns : SysCall → Type
  | .open _ _ => Option ℕ
  | .close _ => Bool
  | .getMagic _ | .getCfg _ _ => Option Word
  | .setCfg _ _ _ => Bool
  | .getDdTstamp _ | .getPmTstamp _ => Option Timestamp
  | .setDec _ _ | .setMt _ _ | .setSt _ _ => Bool
  | .getfl _ => Option Access
  | .setNonblock _ _ => Bool
  | .lseek _ _ _ => Bool
  | .read _ _ _ n => Option (Received n.toNat)
  | .store _ _ => Unit
  | .malloc _ => Option ℕ
  | .alloc => Bool
  | .getpid => Word
  | .mkfifo _ => Bool
  | .pthreadCreate => Bool
  | .pthreadJoin => Unit
  | .writeRequest _ _ => Bool
  | .sigaction => Bool
  | .uninitEnv => EnvParams
  | .dscMessage _ _ => ℤ × Option (BitVec 64)
  | .pllSetcmd _ => ℤ
  | .pllGetstatus => ℤ × (PllStatus → PllStatus)
  | .health => ℤ × Health
  | .toattn _ => ℤ
  | .hang | .fault => Empty

/-- The programs of the library. -/
abbrev LibProg := Prog SysCall SysAns

/-- A system call. -/
abbrev sys (c : SysCall) : LibProg (SysAns c) := Prog.perform c

/-- A system call with its answer. -/
abbrev SysEvent := Event SysCall SysAns

/-- A system that grants every call; its state is the next descriptor and address. -/
def granting : Handler SysCall SysAns ℕ
  | .open _ _, n => some (some n, n + 1)
  | .getMagic _, n => some (some liberaMagic, n)
  | .getCfg _ _, n => some (some 0, n)
  | .getDdTstamp _, n | .getPmTstamp _, n => some (some {}, n)
  | .getfl f, n => some (some f.access, n)
  | .read _ _ kind k, n => some (some ⟨k.toNat, le_rfl, fun _ => ⟨kind, []⟩⟩, n)
  | .malloc _, n => some (some n, n + 1)
  | .getpid, n => some (1, n)
  | .uninitEnv, n => some (⟨fun _ => 0, ⟨0, 0⟩, 0⟩, n)
  | .dscMessage _ val, n => some ((0, some val), n)
  | .pllSetcmd _, n => some (0, n)
  | .pllGetstatus, n => some ((0, id), n)
  | .health, n => some ((0, ⟨none, fun _ => none, fun _ => none⟩), n)
  | .toattn _, n => some (0, n)
  | .close _, n | .setCfg _ _ _, n | .setDec _ _, n | .setMt _ _, n
  | .setSt _ _, n => some (true, n)
  | .setNonblock _ _, n | .lseek _ _ _, n | .alloc, n | .mkfifo _, n => some (true, n)
  | .pthreadCreate, n | .writeRequest _ _, n | .sigaction, n => some (true, n)
  | .store _ _, n | .pthreadJoin, n => some ((), n)
  | .hang, _ | .fault, _ => none

/-- A call on the descriptor of a file; on `-1` it fails. -/
def onFile {α : Type} (fd : Option File) (bad : α) (k : File → LibProg α) : LibProg α :=
  match fd with
  | some f => k f
  | none => pure bad

/-- The process ends here, or waits for ever. -/
def hang {α : Type} : LibProg α := do
  let e ← sys .hang
  e.elim

def fault {α : Type} : LibProg α := do
  let e ← sys .fault
  e.elim

end LiberaDaq.Cspi
