import LiberaDaq.Cspi.Calls
import LiberaDaq.Interaction.Environment

/-!
# The event daemon

`eventd` reads events from the event device and requests from its FIFO. A request makes a
connection of a process a listener, changes the mask of one, or lets one leave; an event goes to
every listener whose mask has it, through the event FIFO of the listener's process. The FIFO belongs
to the process: all its listeners share it, and whoever is taken off the list has it unlinked.

The list of listeners is the state of the daemon. `handleRequest` and `handleEvent` are programs
over the system calls that the daemon makes.
-/

namespace LiberaDaq.Eventd

open LiberaDaq.Interaction LiberaDaq.Cspi

/-- The errors that the daemon tells apart. -/
inductive Errno
  | eperm | enxio | enoent | other
  deriving DecidableEq, Repr

/-- `Listener`, without its links. -/
structure Listener where
  pid : Word
  uid : Word
  mask : Word
  deriving DecidableEq, Repr

/-- The calls of the daemon. -/
inductive DaemonCall
  /-- `kill` with no signal. -/
  | kill (pid : Word)
  | malloc
  /-- The read of the device that gave an event. -/
  | readEvent (e : EventHdr)
  /-- `LIBERA_EVENT_SET_MASK`. -/
  | setMask (mask : Word)
  /-- `LIBERA_EVENT_ACQ_PM`. -/
  | acqPm
  /-- The event FIFO of a process, opened for writing without blocking. -/
  | openFifo (pid : Word)
  | writeFifo (pid : Word) (e : EventHdr)
  | closeFifo (pid : Word)
  | unlinkFifo (pid : Word)
  /-- The daemon ends here. -/
  | exit
  deriving DecidableEq, Repr

/-- What a call gives back: the error of one that failed. -/
abbrev DaemonAns : DaemonCall → Type
  | .malloc => Bool
  | .readEvent _ => Unit
  | .exit => Empty
  | _ => Option Errno

/-- The programs of the daemon. -/
abbrev DaemonProg := Prog DaemonCall DaemonAns

/-- A system call. -/
abbrev call (c : DaemonCall) : DaemonProg (DaemonAns c) := Prog.perform c

/-- `LIBERA_EVENT_INTERLOCK` and `LIBERA_EVENT_PM`. -/
def eventInterlock : Word := 8

def eventPm : Word := 16

/-- `INIT_MASK`. -/
def initMask : Word := eventPm ||| eventInterlock

/-! ## The list of listeners -/

/-- The listener is the one that a request names. -/
def Listener.is (q : Listener) (pid uid : Word) : Bool := q.pid = pid && q.uid = uid

/-- `find_listener`. -/
def findListener (pid uid : Word) (ls : List Listener) : Option Listener :=
  ls.find? fun q => q.is pid uid

/-- The list with another mask for the listener that `find_listener` finds. -/
def updateMask (pid uid mask : Word) : List Listener → List Listener
  | [] => []
  | q :: ls =>
    if q.is pid uid then { q with mask := mask } :: ls else q :: updateMask pid uid mask ls

/-- The list without the listener that `find_listener` finds. -/
def takeOff (pid uid : Word) (ls : List Listener) : List Listener :=
  ls.eraseP fun q => q.is pid uid

/-- The mask that `handle_request` computes. -/
def maskOf (ls : List Listener) : Word := ls.foldl (fun mask q => mask ||| q.mask) initMask

/-- The event is one that the listener waits for. -/
def Listener.wants (q : Listener) (e : EventHdr) : Bool := e.id &&& q.mask ≠ 0

/-! ## Requests -/

/-- A request to join: an update of the mask, or a new listener at the head of the list. -/
def join (r : EventRequest) (ls : List Listener) : DaemonProg (List Listener) :=
  if (findListener r.pid r.uid ls).isSome then pure (updateMask r.pid r.uid r.mask ls)
  else do
    if ← call .malloc then pure (⟨r.pid, r.uid, r.mask⟩ :: ls)
    else do
      let e ← call .exit
      e.elim

/-- A request to leave, with `remove_listener`. -/
def leave (r : EventRequest) (ls : List Listener) : DaemonProg (List Listener) :=
  if (findListener r.pid r.uid ls).isSome then do
    let _ ← call (.unlinkFifo r.pid)
    pure (takeOff r.pid r.uid ls)
  else pure ls

/-- The part of a request that concerns the list. -/
def applyRequest (r : EventRequest) (ls : List Listener) : DaemonProg (List Listener) :=
  if r.mask ≠ 0 then join r ls else leave r ls

/-- `handle_request`. -/
def handleRequest (r : EventRequest) (ls : List Listener) : DaemonProg (ℤ × List Listener) := do
  let err ← call (.kill r.pid)
  if err ≠ none ∧ err ≠ some .eperm then pure (-1, ls)
  else do
    let ls ← applyRequest r ls
    let err ← call (.setMask (maskOf ls))
    pure (if err = none then 0 else -1, ls)

/-! ## Events -/

/-- The event, written to the FIFO of a process: whether the process turned out to be gone. -/
def signal (e : EventHdr) (pid : Word) : DaemonProg Bool := do
  let err ← call (.openFifo pid)
  match err with
  | some err => pure (err = .enxio ∨ err = .enoent)
  | none => do
    let err ← call (.writeFifo pid e)
    let errno ← call (.closeFifo pid)
    match err with
    | none => pure false
    | some err =>
      let err := errno.getD err
      pure (err = .enxio ∨ err = .enoent)

/-- The body of the loop of `handle_event`: whether the listener is a ghost. -/
def alert (e : EventHdr) (q : Listener) : DaemonProg Bool :=
  if q.wants e then signal e q.pid else pure false

/-- The loop of `handle_event`, with the listeners that stay. -/
def dispatch (e : EventHdr) : List Listener → DaemonProg (List Listener)
  | [] => pure []
  | q :: ls => do
    if ← alert e q then do
      let _ ← call (.unlinkFifo q.pid)
      dispatch e ls
    else do
      let ls ← dispatch e ls
      pure (q :: ls)

/-- The post-mortem data, waited for. -/
def acknowledge (e : EventHdr) : DaemonProg (Option Errno) :=
  if e.id = eventPm then call .acqPm else pure none

/-- `handle_event`. -/
def handleEvent (e : EventHdr) (ls : List Listener) : DaemonProg (ℤ × List Listener) := do
  let _ ← acknowledge e
  let ls ← dispatch e ls
  pure (0, ls)

/-- What `run` handles. -/
inductive DaemonOp
  | request (r : EventRequest)
  | event (e : EventHdr)

/-- One step of `run`. -/
def step : DaemonOp → List Listener → DaemonProg (ℤ × List Listener)
  | .request r, ls => handleRequest r ls
  | .event e, ls => do
    call (.readEvent e)
    handleEvent e ls

/-- A step of the daemon in a world `τ`. -/
abbrev DaemonMove (τ : Type) := Move DaemonOp ℤ (List Listener × τ) (Event DaemonCall DaemonAns)

end LiberaDaq.Eventd
