import LiberaDaq.Kernel.BlockFiles
import LiberaDaq.Memory.ArrayLog
import Mathlib.Logic.Relation

/-!
# The parameters of the fast application

`cspi_setenvparam_fa` and `cspi_getenvparam_fa` write and read the configuration block of the fast
application through the FA device: each call opens the device, seeks, transfers and closes it again.
Other processes use the device at the same time, at any moment in between.

A transfer that would pass the end of the block is cut off there; the call fails, but what fits has
been put. The number of bytes is a product of 32 bits, so that a call may also succeed with less than
it was asked for (`FaLaw`).
-/

namespace LiberaDaq.Kernel

open LiberaDaq.Cspi LiberaDaq.Interaction LiberaDaq.Memory

/-! ## The calls of the library -/

/-- The system calls. The mutex is that of the environment. -/
inductive FaCall
  | openFa (write : Bool)
  | mutexLock | mutexUnlock
  | lseek (f : Filp) (offset : Word)
  | write (f : Filp) (data : ℕ → Word) (n : Word)
  | read (f : Filp) (n : Word)
  | close (f : Filp)

/-- What a call gives back: the file, if it was opened; whether `lseek` succeeded; the number of
bytes or `-1`, and for `read` what it has put into the buffer. -/
abbrev FaAns : FaCall → Type
  | .openFa _ => Option Filp
  | .lseek _ _ => Bool
  | .write _ _ _ => Word
  | .read _ _ => Word × List Word
  | .mutexLock | .mutexUnlock | .close _ => Unit

abbrev FaProg (α : Type) := Prog FaCall FaAns α

abbrev facall (c : FaCall) : FaProg (FaAns c) := Prog.perform c

/-- The arguments of a call, but for the buffer; `henv` is what `is_henv` says of the handle. -/
structure FaArgs where
  henv : Bool
  offset : Word
  size : Word
  count : Word
  deriving DecidableEq, Repr

/-- `count*size`. -/
def FaArgs.bytes (a : FaArgs) : Word := a.count * a.size

/-- The code after a transfer of `n` bytes. -/
def FaArgs.code (a : FaArgs) (n : Word) : ℤ := if a.bytes = n then cspiOk else cspiESystem

/-- The transfer at the offset, when `lseek` succeeds. -/
def FaArgs.placed (a : FaArgs) (f : Filp) (transfer : FaProg (ℤ × List Word)) :
    FaProg (ℤ × List Word) := do
  let ok ← facall (.lseek f a.offset)
  if ok then transfer else pure (cspiESystem, [])

/-- What `cspi_setenvparam_fa` and `cspi_getenvparam_fa` have in common, with the transfer through a
file: the code, and what was put into the buffer. -/
def FaArgs.run (a : FaArgs) (pbuf write : Bool) (transfer : Filp → FaProg (ℤ × List Word)) :
    FaProg (ℤ × List Word) :=
  if !a.henv then pure (cspiEInvalidHandle, [])
  else if !pbuf then pure (cspiEInvalidParam, [])
  else if a.size.toNat % 4 ≠ 0 then pure (cspiEInvalidParam, [])
  else do
    let fd ← facall (.openFa write)
    match fd with
    | none => pure (cspiESystem, [])
    | some f => do
      facall .mutexLock
      let out ← a.placed f (transfer f)
      facall .mutexUnlock
      facall (.close f)
      pure out

/-- `cspi_setenvparam_fa`, of the words of the buffer. -/
def cspiSetenvparamFa (a : FaArgs) (pbuf : Option (ℕ → Word)) : FaProg (ℤ × List Word) :=
  a.run pbuf.isSome true fun f => do
    let n ← facall (.write f (pbuf.getD fun _ => 0) a.bytes)
    pure (a.code n, [])

/-- `cspi_getenvparam_fa`. -/
def cspiGetenvparamFa (a : FaArgs) (pbuf : Bool) : FaProg (ℤ × List Word) :=
  a.run pbuf false fun f => do
    let (n, data) ← facall (.read f a.bytes)
    pure (a.code n, data)

/-- A call. -/
inductive FaOp
  | set (a : FaArgs) (pbuf : Option (ℕ → Word))
  | get (a : FaArgs) (pbuf : Bool)

def FaOp.args : FaOp → FaArgs
  | .set a _ | .get a _ => a

def FaOp.run : FaOp → FaProg (ℤ × List Word)
  | .set a pbuf => cspiSetenvparamFa a pbuf
  | .get a pbuf => cspiGetenvparamFa a pbuf

/-- A call as a move. -/
def faCall (op : FaOp) (_ : Unit) : FaProg ((ℤ × List Word) × Unit) := do
  let out ← op.run
  pure (out, ())

/-! ## The device -/

/-- The FA device with the files that are open on it. `own` is the file of the call that is under
way, and the log says of each entry whether it is of a call or of another process. -/
structure FaWorld where
  block : BlockWorld
  dev : CommonDev
  files : Filp → Option FMode
  own : Option Filp
  log : List (Bool × ArrayOp Word)

/-- The requests that a file may be used for. -/
def FMode.permits (mode : FMode) : BlockRequest → Bool
  | .lseek _ _ => true
  | .read _ _ _ => mode.read
  | .write _ _ _ _ => mode.write

/-- The entry of a request at a position. -/
def faEntry (pos : ℕ) : BlockRequest → BlockAnswer → Option (ArrayOp Word)
  | .lseek _ _, _ => none
  | .read _ _ _, x => if x.ret < 0 then none else some (.take (pos / 4) x.data)
  | .write data _ _ _, x =>
    if x.ret < 0 then none
    else some (.put (pos / 4) ((List.range (x.ret.toNat / 4)).map data))

namespace FaWorld

/-- The device when the driver was loaded. -/
def loaded (reg : ℕ → Word) : FaWorld :=
  ⟨.start reg, ⟨0, 0, 0, none⟩, fun _ => none, none, []⟩

/-- A request through a file. -/
def request (u : FaWorld) (mine : Bool) (file : Filp) (r : BlockRequest) : BlockAnswer × FaWorld :=
  let x := BlockDevice.serve u.block file .fa r
  let entry := faEntry (u.block.fPos file).toNat r x.1
  (x.1, { u with block := x.2, log := u.log ++ entry.toList.map (mine, ·) })

/-- A file was opened, at the start of the block. -/
def opened (u : FaWorld) (file : Filp) (mode : FMode) : FaWorld :=
  { u with
    block := { u.block with fPos := Function.update u.block.fPos file 0 }
    dev := (u.dev.openFile true file mode).2, files := Function.update u.files file (some mode) }

/-- A file was closed. -/
def closed (u : FaWorld) (file : Filp) (mode : FMode) : FaWorld :=
  { u with dev := u.dev.releaseFile mode, files := Function.update u.files file none }

end FaWorld

/-- What other processes do: they open files that the device accepts, and close them and use them
as they were opened. -/
inductive Foreign : FaWorld → FaWorld → Prop
  | openFile (u : FaWorld) (file : Filp) (mode : FMode) (hnew : u.files file = none)
      (hok : (u.dev.openFile true file mode).1 = 0) : Foreign u (u.opened file mode)
  | close (u : FaWorld) (file : Filp) (mode : FMode) (hfile : u.files file = some mode)
      (hown : u.own ≠ some file) : Foreign u (u.closed file mode)
  | request (u : FaWorld) (file : Filp) (mode : FMode) (r : BlockRequest)
      (hfile : u.files file = some mode) (hmode : mode.permits r = true)
      (hown : u.own ≠ some file) : Foreign u (u.request false file r).2

/-- The mode of a file that is opened with `O_WRONLY` or `O_RDONLY`. -/
def faMode (write : Bool) : FMode := ⟨!write, write⟩

/-- What a process gets for the code of the device. -/
def ssize (ret : ℤ) : Word := if ret < 0 then -1 else BitVec.ofInt 32 ret

/-- What the calls do. The kernel may refuse to open the device or to transfer for reasons of its
own; the device refuses as the driver does. -/
def faAnswer : (c : FaCall) → FaAns c → FaWorld → FaWorld → Prop
  | .openFa write, x, u, u' =>
    x = none ∧ u' = u ∨ ∃ f, x = some f ∧ u.files f = none ∧
      (u.dev.openFile true f (faMode write)).1 = 0 ∧
        u' = { u.opened f (faMode write) with own := some f }
  | .lseek f offset, x, u, u' =>
    x = decide (0 ≤ (u.request true f (.lseek (offset.signExtend 64) 0)).1.ret) ∧
      u' = (u.request true f (.lseek (offset.signExtend 64) 0)).2
  | .write f data n, x, u, u' =>
    x = -1 ∧ u' = u ∨ ∃ locked fault,
      x = ssize (u.request true f (.write data n locked fault)).1.ret ∧
        u' = (u.request true f (.write data n locked fault)).2
  | .read f n, x, u, u' =>
    x = (-1, []) ∧ u' = u ∨ ∃ locked copied,
      x = (ssize (u.request true f (.read n locked copied)).1.ret,
          (u.request true f (.read n locked copied)).1.data) ∧
        u' = (u.request true f (.read n locked copied)).2
  | .close f, _, u, u' => ∃ mode, u.files f = some mode ∧ u' = { u.closed f mode with own := none }
  | .mutexLock, _, u, u' | .mutexUnlock, _, u, u' => u' = u

/-- The same, with the other processes at any moment. -/
def faServe : Serves FaCall FaAns FaWorld :=
  fun c x u u' => ∃ v, Relation.ReflTransGen Foreign u v ∧ faAnswer c x v u'

/-! ## What a call does -/

namespace FaArgs

/-- The arguments are accepted. -/
def Proper (a : FaArgs) (pbuf : Bool) : Prop :=
  a.henv = true ∧ pbuf = true ∧ a.size.toNat % 4 = 0

/-- The code of a call that transfers nothing. -/
def refusal (a : FaArgs) (pbuf : Bool) : ℤ :=
  if !a.henv then cspiEInvalidHandle
  else if !pbuf || a.size.toNat % 4 ≠ 0 then cspiEInvalidParam
  else cspiESystem

/-- The offset is that of a word of the block, or its end. -/
def InBlock (a : FaArgs) : Prop := a.offset.toNat ≤ faiBlock.size ∧ a.offset.toNat % 4 = 0

/-- The bytes from the offset to the end of the block. -/
def room (a : FaArgs) : ℕ := faiBlock.size - a.offset.toNat

/-- The words that are transferred. -/
def words (a : FaArgs) : ℕ := min a.bytes.toNat a.room / 4

/-- The code of a transfer, which fails when it is cut off. -/
def outcome (a : FaArgs) : ℤ := if a.bytes.toNat ≤ a.room then cspiOk else cspiESystem

end FaArgs

/-- What a call returns, and its entries in the log. -/
inductive FaLaw : FaOp → ℤ × List Word → List (ArrayOp Word) → Prop
  | setRefused (a : FaArgs) (pbuf : Option (ℕ → Word)) :
      FaLaw (.set a pbuf) (a.refusal pbuf.isSome, []) []
  | getRefused (a : FaArgs) (pbuf : Bool) : FaLaw (.get a pbuf) (a.refusal pbuf, []) []
  | set (a : FaArgs) (data : ℕ → Word) (hargs : a.Proper true) (hin : a.InBlock) :
      FaLaw (.set a (some data)) (a.outcome, [])
        [.put (a.offset.toNat / 4) ((List.range a.words).map data)]
  | get (a : FaArgs) (ws : List Word) (hargs : a.Proper true) (hin : a.InBlock)
      (hws : ws.length = a.words) :
      FaLaw (.get a true) (a.outcome, ws) [.take (a.offset.toNat / 4) ws]

end LiberaDaq.Kernel
