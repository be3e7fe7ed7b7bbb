import LiberaDaq.Interaction.Crowd
import LiberaDaq.Cspi.Codes
import LiberaDaq.Kernel.Calls
import LiberaDaq.Msp.Transfer

/-!
# The MSP device and its processes

Processes read the supply voltages from the MSP device (`msp_main.c`), by `cspi_health_get_voltages`
or directly. The driver has one receive buffer and one atom for all of them, and the semaphore of the
device lets in one process at a time. The voltage monitor goes on with its main loop meanwhile: it is
one more thread, whose operation is a step of that loop.

The monitor starts a conversion when it is told to while it sleeps. A command that finds it still
awake is answered with the data that it has. `starts` notes down who sent each of the commands and
what it found, and this says which conversion every reading is of (`voltages_shared`).
-/

namespace LiberaDaq.Msp

open Interaction
open Cspi (Word cspiOk cspiESystem)
open Kernel (eAcces eInval eNoDev eRestartSys)

/-- `voltage`, of a `msp_atom_t`. -/
abbrev Voltages := Fin 8 → ℤ

/-! ## Calls -/

/-- What a process does with the device, and the step of the monitor. -/
inductive MspCall
  /-- `down` and `down_interruptible` of the device's semaphore, which may not be got. -/
  | down
  | downInterruptible
  | up
  /-- `ssp_exchange`. -/
  | exchange (tx : Word)
  /-- The receive buffer: `dev->RX.seq` is set or read, and `dev->RX.buf[dev->RX.seq++]` is set. -/
  | setSeq (n : ℕ)
  | seq
  | store (rx : Word)
  /-- `msp_transform`, from the receive buffer to the atom of the driver. -/
  | transform
  /-- `copy_to_user` of the atom: whether it was copied, and what the user's memory holds then. -/
  | copyToUser
  /-- `open()` comes as far as `msp_open`. -/
  | openDevice
  /-- The monitor's main loop makes a step. -/
  | main
  /-- Not to return. -/
  | hang

abbrev MspAns : MspCall → Type
  | .downInterruptible | .openDevice => Bool
  | .exchange _ => Word
  | .seq => ℕ
  | .copyToUser => Bool × Voltages
  | .hang => Empty
  | _ => Unit

abbrev MspProg := Prog MspCall MspAns

def mspCall (c : MspCall) : MspProg (MspAns c) := Prog.perform c

/-! ## The driver -/

/-- `MSP_MAX_MINOR`. -/
def mspMaxMinor : ℕ := 0

/-- The greatest `count` of a read: `MSP_MAX_INTERVAL` atoms. -/
def mspMaxCount : ℕ := 1 * 32

/-- The exchanges that test for the end of the conversion. -/
def awaitConversion : ℕ → MspProg Unit
  | 0 => do
    let e ← mspCall .hang
    nomatch e
  | n + 1 => do
    let rx ← mspCall (.exchange convTest)
    if rx = convInProgress then awaitConversion n else pure ()

/-- The loop over the indices from `j` on, and `n` of them. -/
def receiveData : ℕ → ℕ → MspProg Unit
  | 0, _ => pure ()
  | n + 1, j => do
    let rx ← mspCall (.exchange (BitVec.ofNat 32 j))
    mspCall (.store rx)
    receiveData n (j + 1)

/-- `msp_transfer`, with what it has copied to the user. The process gives up testing after so many
turns, where the driver goes on for ever. -/
def mspTransfer (turns : ℕ) : ℕ → ℤ → List Voltages → MspProg (ℤ × List Voltages)
  | 0, ret, got => pure (ret, got)
  | atoms + 1, ret, got => do
    let _ ← mspCall (.exchange convStart)
    awaitConversion turns
    mspCall (.setSeq 0)
    let seq ← mspCall .seq
    let rx ← mspCall (.exchange (BitVec.ofNat 32 seq))
    if rx ≠ convTest + 1 then pure (-EBADE, got)
    else do
      receiveData (protoEnd - 1) 1
      let rx ← mspCall (.exchange (BitVec.ofNat 32 (protoEnd - 1)))
      mspCall (.store rx)
      mspCall .transform
      let (copied, atom) ← mspCall .copyToUser
      if copied then mspTransfer turns atoms (ret + sizeofAtom) (got ++ [atom])
      else pure (-EFAULT, got ++ [atom])

/-- What `msp_read` does with the semaphore. -/
def mspReadLocked (turns count : ℕ) : MspProg (ℤ × List Voltages) :=
  if count > mspMaxCount then pure (-eInval, [])
  else if count % 32 ≠ 0 then pure (-eInval, [])
  else if count / 32 = 0 then pure (0, [])
  else mspTransfer turns (count / 32) 0 []

/-- `msp_read`. -/
def mspRead (turns count : ℕ) : MspProg (ℤ × List Voltages) := do
  let taken ← mspCall .downInterruptible
  if taken then do
    let r ← mspReadLocked turns count
    mspCall .up
    pure r
  else pure (-eRestartSys, [])

/-- `msp_open`. -/
def mspOpen (minor : ℕ) (write : Bool) : MspProg ℤ :=
  if minor > mspMaxMinor then pure (-eNoDev)
  else do
    mspCall .down
    mspCall .up
    pure (if write then -eAcces else 0)

/-- `msp_release`. -/
def mspRelease : MspProg ℤ := do
  mspCall .down
  mspCall .up
  pure 0

/-! ## The library -/

/-- `cspi_health_get_voltages`, with what its `msp_atom` holds before it is read: the code, and what
`msp_read` returned and the voltages if the device was opened. A read that fails gives `-1`, and
`nread` is unsigned. -/
def cspiHealthGetVoltages (turns : ℕ) (stack : Voltages) : MspProg (ℤ × Option (ℤ × Voltages)) := do
  let opened ← mspCall .openDevice
  if opened then do
    let fd ← mspOpen 0 false
    if fd < 0 then pure (cspiESystem, none)
    else do
      let (ret, got) ← mspRead turns 32
      let nread : Word := BitVec.ofInt 32 (if ret < 0 then -1 else ret)
      let rc := if nread ≠ 32 ∧ nread < 0 then cspiESystem else cspiOk
      let _ ← mspRelease
      pure (rc, some (ret, got.getLast?.getD stack))
  else pure (cspiESystem, none)

/-! ## Processes and monitor -/

/-- The operations. -/
inductive MspOp
  | voltages (stack : Voltages)
  | read (count : ℕ)
  | opened (minor : ℕ) (write : Bool)
  | released
  | main

inductive MspResult
  | voltages (rc : ℤ) (reading : Option (ℤ × Voltages))
  | read (ret : ℤ) (got : List Voltages)
  | code (ret : ℤ)

def mspSem (turns : ℕ) : MspOp → MspProg MspResult
  | .voltages stack => do
    let r ← cspiHealthGetVoltages turns stack
    pure (.voltages r.1 r.2)
  | .read count => do
    let r ← mspRead turns count
    pure (.read r.1 r.2)
  | .opened minor write => do
    let ret ← mspOpen minor write
    pure (.code ret)
  | .released => do
    let ret ← mspRelease
    pure (.code ret)
  | .main => do
    mspCall .main
    pure (.code 0)

/-- The semaphore, the receive buffer and the atom of the driver, the monitor, and the commands to
start a conversion: who sent each, and whether it found the main loop asleep. -/
structure MspWorld (ι : Type) where
  holder : Option ι
  seq : ℕ
  buf : ℕ → Word
  atom : Voltages
  firmware : Firmware
  starts : List (ι × Bool)

variable {ι : Type}

/-- After `msp_init_dev`, and when the monitor sleeps for the first time. -/
def mspBoot (adc : Conversions) : MspWorld ι := ⟨none, 0, fun _ => 0, fun _ => 0, firstSleep adc, []⟩

/-- The other side of an exchange. The serial port has frames of eight bits. -/
def MspWorld.exchanged (u : MspWorld ι) (i : ι) (tx : Word) : MspWorld ι :=
  { u with
    firmware := rxIsr (tx.setWidth 8) u.firmware
    starts := u.starts ++ if tx = convStart then [(i, decide (u.firmware.main = .asleep))] else [] }

/-- The main loop makes a step. -/
def MspWorld.main (adc : Conversions) (u : MspWorld ι) : MspWorld ι :=
  { u with firmware := mainStep adc u.firmware }

/-- How the calls are answered to a thread. An exchange completes only when the main loop, if it was
woken, has set `no_data`. -/
def mspServe (adc : Conversions) (i : ι) : Serves MspCall MspAns (MspWorld ι)
  | .down, _, u, v => u.holder = none ∧ v = { u with holder := some i }
  | .downInterruptible, taken, u, v =>
    if taken then u.holder = none ∧ v = { u with holder := some i } else v = u
  | .up, _, u, v => v = { u with holder := none }
  | .exchange tx, rx, u, v => u.firmware.main ≠ .woken ∧ rx = u.firmware.txbuf.setWidth 32 ∧
      v = u.exchanged i tx
  | .setSeq n, _, u, v => v = { u with seq := n }
  | .seq, n, u, v => n = u.seq ∧ v = u
  | .store rx, _, u, v => v = { u with buf := Function.update u.buf u.seq rx, seq := u.seq + 1 }
  | .transform, _, u, v => v = { u with atom := mspTransform fun k => u.buf k }
  | .copyToUser, x, u, v => (x.1 = true → x.2 = u.atom) ∧ v = u
  | .openDevice, _, u, v => v = u
  | .main, _, u, v => v = u.main adc
  | .hang, _, _, _ => False

/-! ## What is expected of a reading -/

/-- How many conversions the commands have called for, with the first one, which the monitor makes by
itself. -/
def conversions (starts : List (ι × Bool)) : ℕ := 1 + starts.countP (·.2)

/-- The voltages of a conversion. -/
def voltagesOf (adc : Conversions) (n : ℕ) : Voltages :=
  mspTransform fun k => (bytes (adc n) k).setWidth 32

/-- The voltages that commands call for, one after the other. -/
def readings (adc : Conversions) (before : List (ι × Bool)) : List (ι × Bool) → List Voltages
  | [] => []
  | s :: own => voltagesOf adc (conversions (before ++ [s])) :: readings adc (before ++ [s]) own

/-- The commands of a thread between two moments follow one another, with no other thread's among
them. -/
structure Sends (i : ι) (v w : MspWorld ι) (before own : List (ι × Bool)) : Prop where
  sent : ∃ after, w.starts = before ++ own ++ after ∧ ∀ s ∈ after, s.1 ≠ i
  others : ∃ l, before = v.starts ++ l ∧ ∀ s ∈ l, s.1 ≠ i
  mine : ∀ s ∈ own, s.1 = i

/-- What a read comes to, with its commands: it is interrupted or refused and sends none, or has the
voltages that they call for, of as many atoms as it asks for, or fails to copy. -/
def Outcome (adc : Conversions) (count : ℕ) (before own : List (ι × Bool))
    (r : ℤ × List Voltages) : Prop :=
  (r.1 = -eRestartSys ∨ r.1 = -eInval ∧ ¬(count = 0 ∨ count = 32)) ∧ own = [] ∧ r.2 = [] ∨
    r.1 = count ∧ r.1 = sizeofAtom * own.length ∧ r.2 = readings adc before own ∨ r.1 = -EFAULT

/-- What a process gets by a read. -/
def ReadLaw (adc : Conversions) (i : ι) (v w : MspWorld ι) (count : ℕ) (r : ℤ × List Voltages) :
    Prop := ∃ before own, Sends i v w before own ∧ Outcome adc count before own r

/-- The library has the voltages that its command calls for, unless the read was interrupted or failed
to copy, which it does not notice. -/
def VoltagesLaw (adc : Conversions) (i : ι) (v w : MspWorld ι) (stack : Voltages) (ret : ℤ)
    (voltage : Voltages) : Prop :=
  (∃ before s, Sends i v w before [s] ∧ ret = sizeofAtom ∧
      voltage = voltagesOf adc (conversions (before ++ [s]))) ∨
    ret = -eRestartSys ∧ voltage = stack ∨ ret = -EFAULT

/-- What an operation does. -/
def MspLaw (adc : Conversions) (d : Done ι MspOp MspResult (MspWorld ι)) : Prop :=
  match d.op, d.result with
  | .voltages stack, .voltages rc reading => (rc = cspiOk ↔ reading.isSome) ∧
      ∀ r ∈ reading, VoltagesLaw adc d.thread d.before d.after stack r.1 r.2
  | .read count, .read ret got => ReadLaw adc d.thread d.before d.after count (ret, got)
  | _, _ => True

end LiberaDaq.Msp
