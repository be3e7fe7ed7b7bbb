import LiberaDaq.Eventd.Daemon

/-!
# The world of the event daemon

The event device with its mask, and the processes with their event FIFOs. A process reads its FIFO
while its event thread runs; the FIFO can be opened for writing as long as it has its name and a
reader. The daemon has the device open for writing, so that its masks are granted, and whatever else
may fail does so with another error than those that stand for a process that is gone.

Processes make, open, read, close and unlink their own FIFOs whenever they like.
-/

namespace LiberaDaq.Eventd

open LiberaDaq.Interaction LiberaDaq.Cspi Prog

/-- The event device and the event FIFOs. The device numbers its events, and the messages in a FIFO
go with the number of the event that they are about. -/
structure World where
  mask : Word
  serial : ℕ
  linked : Word → Bool
  reader : Word → Bool
  fifo : Word → List (ℕ × EventHdr)

/-- The FIFO of the process can be written to. -/
def World.open (w : World) (pid : Word) : Bool := w.linked pid && w.reader pid

/-- The error is none of those that stand for a process that is gone. -/
def Errno.otherwise (err : Option Errno) : Prop := err ≠ some .enxio ∧ err ≠ some .enoent

/-- What the world answers the daemon. -/
def serve : Serves DaemonCall DaemonAns World
  | .readEvent _, _, w, w' => w' = { w with serial := w.serial + 1 }
  | .setMask mask, err, w, w' => err = none ∧ w' = { w with mask := mask }
  | .openFifo pid, err, w, w' =>
    w' = w ∧ (if w.open pid then Errno.otherwise err else err ≠ none)
  | .writeFifo pid e, err, w, w' =>
    Errno.otherwise err ∧ w' = if err = none then
      { w with fifo := Function.update w.fifo pid (w.fifo pid ++ [(w.serial, e)]) } else w
  | .closeFifo _, err, w, w' => Errno.otherwise err ∧ w' = w
  | .unlinkFifo pid, err, w, w' =>
    w' = if err = none then { w with linked := Function.update w.linked pid false } else w
  | .kill _, _, w, w' | .malloc, _, w, w' | .acqPm, _, w, w' => w' = w
  | .exit, _, _, _ => False

/-- What the processes do with their FIFOs. -/
inductive Drift : World → World → Prop
  | make (w : World) (pid : Word) : w.reader pid = false →
      Drift w { w with linked := Function.update w.linked pid true }
  | connect (w : World) (pid : Word) : w.linked pid = true →
      Drift w { w with reader := Function.update w.reader pid true }
  | read (w : World) (pid : Word) (m : ℕ × EventHdr) (ms : List (ℕ × EventHdr)) :
      w.fifo pid = m :: ms → Drift w { w with fifo := Function.update w.fifo pid ms }
  | disconnect (w : World) (pid : Word) :
      Drift w { w with reader := Function.update w.reader pid false,
                       fifo := Function.update w.fifo pid [] }
  | unlink (w : World) (pid : Word) : w.reader pid = false →
      Drift w { w with linked := Function.update w.linked pid false }

/-- The world that grants whatever it can. -/
def generous : Handler DaemonCall DaemonAns World
  | .kill _, w | .acqPm, w | .closeFifo _, w => some (none, w)
  | .malloc, w => some (true, w)
  | .readEvent _, w => some ((), { w with serial := w.serial + 1 })
  | .setMask mask, w => some (none, { w with mask := mask })
  | .openFifo pid, w =>
    some (if w.open pid then none else if w.linked pid then some .enxio else some .enoent, w)
  | .writeFifo pid e, w =>
    some (none, { w with fifo := Function.update w.fifo pid (w.fifo pid ++ [(w.serial, e)]) })
  | .unlinkFifo pid, w => some (none, { w with linked := Function.update w.linked pid false })
  | .exit, _ => none

theorem generous_serves (c : DaemonCall) (w : World) (x : DaemonAns c) (w' : World)
    (h : generous c w = some (x, w')) : serve c x w w' := by
  cases c with
  | exit => cases h
  | openFifo pid =>
    obtain ⟨rfl, rfl⟩ := Prod.mk.inj (Option.some.inj h)
    refine ⟨rfl, ?_⟩
    split
    · exact ⟨by simp, by simp⟩
    · split <;> simp
  | writeFifo pid e =>
    obtain ⟨rfl, rfl⟩ := Prod.mk.inj (Option.some.inj h)
    exact ⟨⟨by simp, by simp⟩, rfl⟩
  | closeFifo pid =>
    obtain ⟨rfl, rfl⟩ := Prod.mk.inj (Option.some.inj h)
    exact ⟨⟨by simp, by simp⟩, rfl⟩
  | setMask mask =>
    obtain ⟨rfl, rfl⟩ := Prod.mk.inj (Option.some.inj h)
    exact ⟨rfl, rfl⟩
  | _ =>
    obtain ⟨rfl, rfl⟩ := Prod.mk.inj (Option.some.inj h)
    rfl

/-- The lives of the daemon in the world. -/
abbrev Life := Joint step serve Drift

/-- The daemon after `init`: it has no listeners, and the device has its mask. -/
structure World.Initial (w : World) : Prop where
  mask : w.mask = initMask

/-- The world in which one process reads its FIFO. -/
def World.single (pid : Word) : World where
  mask := initMask
  serial := 0
  linked := fun p => p = pid
  reader := fun p => p = pid
  fifo := fun _ => []

theorem World.single_initial (pid : Word) : (World.single pid).Initial := ⟨rfl⟩

end LiberaDaq.Eventd
