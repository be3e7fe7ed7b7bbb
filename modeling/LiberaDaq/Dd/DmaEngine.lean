import LiberaDaq.Dd.DmaRing

/-!
# The DMA engine

One reader at a time transfers atoms: it is `libera_dd_transfer_OBfifo_DMA` with
`libera_OB_fifo_sync` (`ebpp.c`), a process with a place in its code. It gives the DMA controller
commands, the controller moves atoms from the output buffer of the FPGA into memory, one by one, and
when it is done its interrupt handler, `libera_dma_interrupt` (`libera_main.c`), goes on with the
next command. The reader, the controller and the handler take their steps in any order (`step`).
What the status register of the FPGA shows, whether the reader is to stop, for a signal or for post
mortem data, and whether a copy to the user fails, is any sequence of answers.

A section of the reader under the spin lock is one step; the handler can run before and after it.
Its wake-ups only end the sleep of the reader, which may look at the ring at any time here.
-/

namespace LiberaDaq.Dd

open LiberaDaq.Cspi LiberaDaq.Memory

/-! ## The state -/

/-- Where the reader is in its code: between transfers; its command to the FPGA is written; in
`libera_OB_fifo_sync`, at the start or for a restart, with the number of waits; before the first DMA
command; in the loop, at its top, asleep, at the length of the ring, at the copies with the number
of atoms left, after a copy, at the yield, and at the restart in its parts; in the two conditions of
the loop; and after the loop. -/
inductive Pc
  | idle | requested
  | syncCheck (restart : Bool) (waits : ℕ)
  | syncRead (restart : Bool) (waits : ℕ)
  | issue
  | check | wait | fetch
  | copy (left : ℕ)
  | advance (left : ℕ)
  | yieldPoint | needsStart | refresh | restart
  | loopRemaining | loopEmpty
  | finish
  deriving DecidableEq, Repr

/-- What the DMA controller is to do: where the next atom goes, and how many are left. -/
structure DmaCommand where
  target : ℕ
  left : ℕ
  deriving DecidableEq, Repr

/-- A transfer that is over: its request, the atoms that were asked for and those that the FPGA has
delivered, the error, the atoms that were handed to the reader, and whether there was an overrun. -/
structure Report where
  request : ℕ
  count : ℕ
  delivered : ℕ
  error : Option TransferError
  handed : List Atom
  overrun : Bool

/-- The DMA structure, the controller with its interrupt, the request that the FPGA serves with the
number of its atoms that left the output buffer, the reader with its variables, and the books: the
atoms that left the ring in this transfer, the DMA structure at each command, whether the ring ever
overflowed, and the transfers that are over. -/
structure Engine where
  dma : Dma
  command : Option DmaCommand
  endIntr : Bool
  request : ℕ
  delivered : ℕ
  pc : Pc
  user : Bool
  atomCount : ℕ
  obAtoms : ℕ
  handed : List Atom
  taken : ℕ
  issued : List Dma
  overflowed : Bool
  reports : List Report

/-- The engine when the driver was loaded. -/
def Engine.loaded : Engine where
  dma :=
    { buf := fun _ => ⟨0, 0⟩, put := 0, get := 0
      put_lt := zero_lt_dmaFifoAtoms, get_lt := zero_lt_dmaFifoAtoms
      csize := 0, remaining := 0, obFifoStatus := 0, overrun := false, dmacTransfer := false
      aborting := false, written := 0 }
  command := none
  endIntr := false
  request := 0
  delivered := 0
  pc := .idle
  user := false
  atomCount := 0
  obAtoms := 0
  handed := []
  taken := 0
  issued := []
  overflowed := false
  reports := []

namespace Engine

/-! ## The controller and its interrupt -/

/-- `libera_dma_command`, for the size that was chosen. A command that was not done is replaced. -/
def issue (s : Engine) : Engine :=
  { s with
    dma := { s.dma with dmacTransfer := true }
    command := some ⟨s.dma.put, s.dma.csize.toNat⟩
    issued := s.issued ++ [s.dma] }

/-- An atom is moved to memory. -/
def dmaMove (s : Engine) : Option Engine :=
  match s.command with
  | some ⟨target, left + 1⟩ => some
    { s with
      dma := { s.dma with buf := Function.update s.dma.buf target ⟨s.request, s.delivered⟩ }
      command := some ⟨target + 1, left⟩
      delivered := s.delivered + 1 }
  | _ => none

/-- The command is done, and the interrupt is raised. -/
def dmaEnd (s : Engine) : Option Engine :=
  match s.command with
  | some ⟨_, 0⟩ => some { s with command := none, endIntr := true }
  | _ => none

/-- The next command of the handler, if there is one. -/
def renew (s : Engine) : Engine :=
  if 0 < s.dma.csize then s.issue else { s with dma := { s.dma with dmacTransfer := false } }

/-- `libera_dma_interrupt`. -/
def interrupt (s : Engine) (status : Word) : Option Engine :=
  if s.endIntr then
    let d := s.dma.refresh status
    let (ret, d) := { d with remaining := d.remaining - d.csize }.putTo d.csize.toNat
    let s := { s with
      dma := d.getDmacCsize, endIntr := false, overflowed := s.overflowed || decide (ret < 0) }
    some s.renew
  else none

/-! ## The reader -/

/-- What the reader is told at a step: the status register, whether a signal or post mortem data
stops it, and whether a copy to the user fails. -/
structure Answer where
  status : Word := 0
  stop : Bool := false
  fault : Bool := false

/-- `HZ`, the number of waits in `libera_OB_fifo_sync`. -/
def maxWaits : ℕ := 100

def goto (s : Engine) (pc : Pc) : Engine := { s with pc := pc }

/-- The transfer is over. -/
def finished (s : Engine) (error : Option TransferError) : Engine :=
  { s with
    pc := .idle
    reports := s.reports ++
      [⟨s.request, s.atomCount, s.delivered, error, s.handed, s.dma.overrun⟩] }

/-- The reader stops early. -/
def abort (s : Engine) : Engine :=
  { s with dma := { s.dma with aborting := true } }.finished (some .restartSys)

/-- The start of `libera_dd_transfer_OBfifo_DMA`. -/
def start (s : Engine) (status : Word) : Engine :=
  let d := { s.dma with
    obFifoStatus := status, overrun := false, dmacTransfer := false, remaining := s.atomCount
    aborting := false, written := 0 }
  { s with
    dma := d.flush.getDmacCsize, obAtoms := 0, handed := [], taken := 0, pc := .syncCheck false 0 }

/-- `dma_no_data`. -/
def noData (s : Engine) : Bool :=
  s.dma.remaining ≠ 0 && ddObSize s.dma.obFifoStatus = 0 && !s.dma.overrun

/-- `dma_needs_start`. -/
def needsStart (s : Engine) : Bool := !s.dma.dmacTransfer && s.dma.remaining ≠ 0

/-- One atom is taken from the ring, to the user or to a buffer in the kernel. -/
def copyAtom (s : Engine) (left : ℕ) (x : Answer) : Engine :=
  let t := { s with obAtoms := s.obAtoms + 1 }
  if s.obAtoms < s.atomCount ∧ s.dma.overrun = false then
    if s.user && x.fault then t.finished (some .fault)
    else { t with
      dma := { s.dma with written := s.dma.written + 1 }
      handed := s.handed ++ [s.dma.buf s.dma.get], pc := .advance left }
  else { t with pc := .advance left }

/-- A restart, with the size chosen again. -/
def restartDma (s : Engine) : Engine :=
  let s := { s with dma := s.dma.getDmacCsize }
  if ¬0 < s.dma.csize ∧ s.dma.space = 0 then s.goto .loopRemaining
  else if s.dma.overrun then s.goto .finish
  else s.issue.goto .loopRemaining

/-- The checks after the loop. -/
def finishChecks (s : Engine) (status : Word) : Engine :=
  let s := { s with dma := { s.dma with obFifoStatus := status } }
  if s.dma.overrun = false ∧ ddObSize status ≠ 0 then s.finished (some .io)
  else if s.dma.overrun = false ∧ s.obAtoms ≠ s.atomCount then s.finished (some .fault)
  else s.finished none

/-- A step of the reader. Between transfers it does nothing. -/
def read (s : Engine) (x : Answer) : Option Engine :=
  match s.pc with
  | .idle => none
  | .requested => some (s.start x.status)
  | .syncCheck restart waits => some
    (if s.noData then s.goto (.syncRead restart waits)
    else s.goto (if restart then .restart else .issue))
  | .syncRead restart waits =>
    let s := { s with dma := s.dma.refresh x.status }
    some (if maxWaits < waits then s.finished (some .io)
      else s.goto (.syncCheck restart (waits + 1)))
  | .issue => some ({ s with dma := s.dma.getDmacCsize }.issue.goto .check)
  | .check => some (s.goto (if s.dma.empty then .wait else .fetch))
  | .wait => some
    (if !s.dma.empty then s.goto .fetch else if x.stop then s.abort else s)
  | .fetch => some
    (if s.dma.len = 0 then s.finished (some .fault) else s.goto (.copy s.dma.len))
  | .copy 0 => some (s.goto .yieldPoint)
  | .copy (left + 1) => some (s.copyAtom left x)
  | .advance left => some { s with dma := s.dma.advance, taken := s.taken + 1, pc := .copy left }
  | .yieldPoint => some (if x.stop then s.abort else s.goto .needsStart)
  | .needsStart => some (s.goto (if s.needsStart then .refresh else .loopRemaining))
  | .refresh => some ({ s with dma := s.dma.refresh x.status }.goto (.syncCheck true 0))
  | .restart => some s.restartDma
  | .loopRemaining => some (s.goto (if s.dma.remaining ≠ 0 then .check else .loopEmpty))
  | .loopEmpty => some (s.goto (if s.dma.empty then .finish else .check))
  | .finish => some (s.finishChecks x.status)

/-! ## Steps -/

/-- Who takes a step: the DD device writes a command to the FPGA for a number of atoms, which a
`long` holds; the controller moves an atom or ends; the interrupt handler; the reader. -/
inductive Turn
  | request (count : ℕ) (user : Bool)
  | dmaMove
  | dmaEnd
  | interrupt (status : Word)
  | read (x : Answer)

/-- A step of the engine. -/
def step (s : Engine) : Turn → Option Engine
  | .request count user =>
    if s.pc = .idle ∧ 0 < count ∧ count < 2 ^ 31 then
      some { s with
        pc := .requested, request := s.request + 1, delivered := 0, atomCount := count
        user := user }
    else none
  | .dmaMove => s.dmaMove
  | .dmaEnd => s.dmaEnd
  | .interrupt status => s.interrupt status
  | .read x => s.read x

/-- The states that steps from a state lead to, all of which meet a condition. -/
inductive Reach (ok : Engine → Turn → Prop) (s : Engine) : Engine → Prop
  | refl : Reach ok s s
  | step {s₁ s₂ : Engine} {t : Turn} : Reach ok s s₁ → ok s₁ t → s₁.step t = some s₂ →
      Reach ok s s₂

/-- **The rule of runs.** What a step that meets the condition keeps holds in all states of a run of
such steps. -/
theorem Reach.rule {ok : Engine → Turn → Prop} {I : Engine → Prop} {s s' : Engine}
    (hstep : ∀ s s' t, I s → ok s t → s.step t = some s' → I s') (h : Reach ok s s') (hs : I s) :
    I s' := by
  induction h with
  | refl => exact hs
  | step _ hok he ih => exact hstep _ _ _ ih hok he

end Engine

end LiberaDaq.Dd
